import FleetConsole.Proofs.LineBuffer.Writing

namespace FleetConsole.LineBuffer

variable {σ : Type}

/-- Every line ever opened is still there: no line was evicted and none was cleared away. The
equivalences below say for each operation that it keeps a buffer so exactly if it loses none. -/
def Complete (b : LineBuffer σ) : Prop := b.size=b.lastSeq

instance (b : LineBuffer σ) : Decidable b.Complete :=
  inferInstanceAs (Decidable (b.size=b.lastSeq))

/-- Numbers are given out from 1 on, and each to one line only. -/
def Counted (b : LineBuffer σ) : Prop := b.size<b.nextSeq

theorem counted_new (maxLines : Nat) : (new maxLines : LineBuffer σ).Counted := by
  simp [Counted,new,size]

theorem size_onOpenLine (b : LineBuffer σ) (change : Line σ → Line σ) :
    (b.onOpenLine change).size+b.nextSeq=b.size+(b.onOpenLine change).nextSeq := by
  obtain ⟨newestFirst,maxLines,nextSeq⟩ := b
  cases newestFirst with
  | nil =>
    rw [onOpenLine_nil]
    simp [size,Nat.add_comm]
  | cons line older =>
    cases ht : line.terminated with
    | true =>
      rw [onOpenLine_ended ht]
      simp only [size,List.length_cons]
      omega
    | false =>
      rw [onOpenLine_open ht]
      simp only [size,List.length_cons]

theorem size_put (b : LineBuffer σ) (style : σ) (content : List Char) :
    (b.put style content).size+b.nextSeq=b.size+(b.put style content).nextSeq := by
  rw [put]
  split
  · rfl
  · exact size_onOpenLine b _

/-- Writing opens lines and loses none. -/
theorem size_writes (b : LineBuffer σ) (runs : List (Run σ)) :
    (runs.foldl write b).size+b.nextSeq=b.size+(runs.foldl write b).nextSeq := by
  refine writes_induction (motive := fun _ b' => b'.size+b.nextSeq=b.size+b'.nextSeq)
    (t := []) ?_ ?_ rfl
  · intro t b' run content _ _ _ h
    have hp := size_put b' run.style content
    omega
  · intro t b' h
    have hn := size_onOpenLine b' (fun line => { line with terminated := true })
    simp only [newline]
    omega

theorem counted_writes {b : LineBuffer σ} (h : b.Counted) (runs : List (Run σ)) :
    (runs.foldl write b).Counted := by
  have hs := size_writes b runs
  have hb : b.size<b.nextSeq := h
  change (runs.foldl write b).size<(runs.foldl write b).nextSeq
  omega

theorem size_evict (b : LineBuffer σ) : b.evict.2.size=min b.maxLines b.size := by
  simp [evict,size]

theorem counted_evict {b : LineBuffer σ} (h : b.Counted) : b.evict.2.Counted := by
  have hs := size_evict b
  have hb : b.size<b.nextSeq := h
  have hm : b.evict.2.size<b.nextSeq := by omega
  exact hm

theorem evict_eq_self {b : LineBuffer σ} (h : b.size ≤ b.maxLines) : b.evict=(0,b) := by
  simp [evict,Nat.sub_eq_zero_of_le h,List.take_of_length_le (show b.newestFirst.length ≤ _ from h)]

/-- A buffer is complete after an eviction exactly if it was before and nothing had to go. -/
theorem complete_evict_iff {b : LineBuffer σ} (h : b.Counted) :
    b.evict.2.Complete ↔ b.Complete ∧ b.evict.1=0 := by
  have hs := size_evict b
  have hl : b.evict.2.lastSeq=b.lastSeq := rfl
  have he : b.evict.1=b.size-b.maxLines := rfl
  have hb : b.lastSeq=b.nextSeq-1 := rfl
  have hc : b.size<b.nextSeq := h
  simp only [Complete]
  omega

theorem counted_append {b : LineBuffer σ} (h : b.Counted) (runs : List (Run σ)) :
    (b.append runs).2.Counted := counted_evict (counted_writes h runs)

theorem complete_writes_iff {b : LineBuffer σ} (h : b.Counted) (runs : List (Run σ)) :
    (runs.foldl write b).Complete ↔ b.Complete := by
  have hs := size_writes b runs
  have hw := counted_writes h runs
  have hb : b.size<b.nextSeq := h
  have hb' : (runs.foldl write b).size<(runs.foldl write b).nextSeq := hw
  simp only [Complete,lastSeq]
  omega

theorem complete_append_iff {b : LineBuffer σ} (h : b.Counted) (runs : List (Run σ)) :
    (b.append runs).2.Complete ↔ b.Complete ∧ (b.append runs).1=0 := by
  rw [append,complete_evict_iff (counted_writes h runs),complete_writes_iff h]

/-- A buffer that is complete after an append has only grown by it. -/
theorem append_of_complete {b : LineBuffer σ} (h : b.Counted) {runs : List (Run σ)}
    (hc : (b.append runs).2.Complete) : b.Complete ∧ (b.append runs).2=runs.foldl write b := by
  obtain ⟨hb,he⟩ := (complete_append_iff h runs).mp hc
  refine ⟨hb,?_⟩
  have hle : (runs.foldl write b).size ≤ (runs.foldl write b).maxLines := Nat.le_of_sub_eq_zero he
  rw [append,evict_eq_self hle]

theorem counted_setMaxLines {b : LineBuffer σ} (h : b.Counted) (maxLines : Nat) :
    (b.setMaxLines maxLines).2.Counted :=
  counted_evict (b := { b with maxLines := max 1 maxLines }) h

theorem complete_setMaxLines_iff {b : LineBuffer σ} (h : b.Counted) (maxLines : Nat) :
    (b.setMaxLines maxLines).2.Complete ↔ b.Complete ∧ (b.setMaxLines maxLines).1=0 :=
  complete_evict_iff (b := { b with maxLines := max 1 maxLines }) h

theorem setMaxLines_of_complete {b : LineBuffer σ} (h : b.Counted) {maxLines : Nat}
    (hc : (b.setMaxLines maxLines).2.Complete) :
    b.Complete ∧ (b.setMaxLines maxLines).2={ b with maxLines := max 1 maxLines } := by
  obtain ⟨hb,he⟩ := (complete_setMaxLines_iff h maxLines).mp hc
  refine ⟨hb,?_⟩
  rw [setMaxLines,evict_eq_self (Nat.le_of_sub_eq_zero he)]

theorem counted_endOpenLine {b : LineBuffer σ} (h : b.Counted) : b.endOpenLine.2.Counted := by
  obtain ⟨newestFirst,maxLines,nextSeq⟩ := b
  cases newestFirst <;> exact h

theorem complete_endOpenLine_iff (b : LineBuffer σ) :
    b.endOpenLine.2.Complete ↔ b.Complete := by
  obtain ⟨newestFirst,maxLines,nextSeq⟩ := b
  cases newestFirst <;> exact Iff.rfl

theorem counted_clear {b : LineBuffer σ} (h : b.Counted) : b.clear.Counted :=
  Nat.lt_of_le_of_lt (Nat.zero_le _) h

/-- Clearing is without loss only where no line was ever opened. -/
theorem complete_clear_iff {b : LineBuffer σ} (h : b.Counted) : b.clear.Complete ↔ b.nextSeq=1 := by
  have hs : b.clear.size=0 := rfl
  have hl : b.clear.lastSeq=b.nextSeq-1 := rfl
  have hc : b.size<b.nextSeq := h
  rw [Complete]
  omega

theorem clear_of_complete {b : LineBuffer σ} (h : b.Counted) (hc : b.clear.Complete) :
    b.Complete ∧ b.clear=b := by
  have hn := (complete_clear_iff h).mp hc
  have hz : b.size=0 := by
    have hb : b.size<b.nextSeq := h
    omega
  obtain ⟨newestFirst,maxLines,nextSeq⟩ := b
  have he : newestFirst=[] := List.eq_nil_of_length_eq_zero hz
  subst he
  exact ⟨hc,rfl⟩

end FleetConsole.LineBuffer
