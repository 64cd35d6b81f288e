import FleetConsole.RateWindow
import Mathlib.Algebra.GroupWithZero.Nat

namespace FleetConsole.RateWindow

/-- What a number of the newest slices add up to. -/
def newest (w : RateWindow) (k : Nat) : Nat := (w.slices.take k).sum

theorem used_eq_sum (w : RateWindow) : w.used=w.slices.sum := rfl

theorem newest_le_used (w : RateWindow) (k : Nat) : w.newest k ≤ w.used := by
  have whole : (w.slices.take k++w.slices.drop k).sum=w.used := by
    rw [List.take_append_drop]
    rfl
  rw [List.sum_append_nat] at whole
  have : w.newest k=(w.slices.take k).sum := rfl
  omega

theorem newest_length (w : RateWindow) : w.newest w.slices.length=w.used := by
  rw [newest,List.take_length,used_eq_sum]

theorem record_zero (w : RateWindow) : w.record 0=w := by
  obtain ⟨quota,slices⟩ := w
  cases slices <;> rfl

@[simp] theorem quota_record (w : RateWindow) (accepted : Nat) :
    (w.record accepted).quota=w.quota := by
  obtain ⟨quota,slices⟩ := w
  cases slices <;> rfl

theorem newest_record (w : RateWindow) (accepted k : Nat) :
    (w.record accepted).newest k ≤ w.newest k+accepted := by
  obtain ⟨quota,slices⟩ := w
  cases slices with
  | nil => exact Nat.le_add_right _ _
  | cons first older =>
    cases k with
    | zero => exact Nat.zero_le _
    | succ k =>
      simp only [record,newest,List.take_succ_cons,List.sum_cons]
      omega

/-- The slice that a rotation opens holds nothing, and all but the oldest are one older. -/
theorem newest_rotate {w : RateWindow} {k : Nat} (h : k<w.slices.length) :
    w.rotate.newest (k+1)=w.newest k := by
  unfold newest rotate
  rw [List.take_succ_cons,List.sum_cons,Nat.zero_add,List.dropLast_eq_take,List.take_take]
  rw [Nat.min_eq_left (by omega)]

theorem length_rotate {w : RateWindow} (h : w.slices≠[]) :
    w.rotate.slices.length=w.slices.length := by
  have pos := List.length_pos_iff.mpr h
  rw [rotate,List.length_cons,List.length_dropLast]
  omega

/-- Slices that still count after one rotation more count now as well. -/
theorem newest_le_rotate {w : RateWindow} (h : w.slices.length=sliceCount) (n : Nat) :
    w.newest (sliceCount-(n+1)) ≤ w.rotate.newest (sliceCount-n) := by
  by_cases hn : n<sliceCount
  · have hk : sliceCount-n=sliceCount-(n+1)+1 := by omega
    have fits : sliceCount-(n+1)<w.slices.length := by omega
    rw [hk]
    exact Nat.le_of_eq (newest_rotate fits).symm
  · rw [Nat.sub_eq_zero_of_le (by omega)]
    exact Nat.zero_le _

theorem used_record_le (w : RateWindow) (accepted : Nat) :
    (w.record accepted).used ≤ w.used+accepted := by
  obtain ⟨quota,slices⟩ := w
  cases slices with
  | nil => exact Nat.le_add_right _ _
  | cons first older =>
    simp only [used_eq_sum,record,List.sum_cons]
    omega

theorem used_rotate_le (w : RateWindow) : w.rotate.used ≤ w.used := by
  have kept := w.newest_le_used (w.slices.length-1)
  rw [newest,← List.dropLast_eq_take] at kept
  rw [used_eq_sum,rotate,List.sum_cons,Nat.zero_add]
  exact kept

/-- Where something fits at all, it fits beside what was let through before. -/
theorem used_add_le {w : RateWindow} {accepted : Nat} (h : accepted ≤ w.remaining)
    (hp : accepted≠0) : w.used+accepted ≤ w.quota.toNat := by
  unfold remaining at h
  omega

/-- The slices that still count after a number of rotations use a quota up, and the window has
no more than that. -/
structure Overdrawn (quota rotations : Nat) (w : RateWindow) : Prop where
  whole : w.slices.length=sliceCount
  limit : w.quota.toNat ≤ quota
  spent : quota ≤ w.newest (sliceCount-rotations)

theorem remaining_of_overdrawn {w : RateWindow} {quota rotations : Nat}
    (h : w.Overdrawn quota rotations) : w.remaining=0 := by
  have most := w.newest_le_used (sliceCount-rotations)
  have limit := h.limit
  have spent := h.spent
  rw [remaining]
  omega

theorem overdrawn_rotate {w : RateWindow} {quota rotations : Nat}
    (h : w.Overdrawn quota (rotations+1)) : w.rotate.Overdrawn quota rotations where
  whole := by
    have nonempty : w.slices≠[] := by
      intro he
      have whole := h.whole
      rw [he] at whole
      cases whole
    exact (length_rotate nonempty).trans h.whole
  limit := h.limit
  spent := Nat.le_trans h.spent (newest_le_rotate h.whole rotations)

theorem overdrawn_setQuota {w : RateWindow} {quota rotations : Nat}
    (h : w.Overdrawn quota rotations) {lower : UInt64} (hl : lower.toNat ≤ quota) :
    (w.setQuota lower).Overdrawn quota rotations :=
  ⟨h.whole,hl,h.spent⟩

end FleetConsole.RateWindow
