import FleetConsole.LinePrinter
import FleetConsole.Proofs.LineBuffer.Sliding
import Mathlib.Data.List.TakeWhile

namespace FleetConsole

variable {σ : Type}

namespace Archive

variable {a : Archive σ}

theorem length_lines (a : Archive σ) : a.lines.length=a.size := List.length_reverse

theorem seqs_lines (h : a.Ordered) : a.lines.map Line.seq=List.range' 1 a.size := by
  rw [lines,List.map_reverse,h.numbers,List.reverse_reverse]

/-- Each line has the number of its place. -/
theorem seq_of_getElem? (h : a.Ordered) {i : Nat} {line : Line σ} (hl : a.lines[i]?=some line) :
    line.seq=i+1 := by
  have inside : i<a.size := a.length_lines ▸ (List.getElem?_eq_some_iff.mp hl).1
  have number : (a.lines.map Line.seq)[i]?=some line.seq := by
    rw [List.getElem?_map,hl,Option.map_some]
  rw [seqs_lines h,List.getElem?_range' inside] at number
  have := Option.some.inj number
  omega

theorem getElem?_of_mem (h : a.Ordered) {line : Line σ} (hl : line∈a.lines) :
    1 ≤ line.seq ∧ line.seq ≤ a.size ∧ a.lines[line.seq-1]?=some line := by
  obtain ⟨i,hi⟩ := List.mem_iff_getElem?.mp hl
  have inside : i<a.size := a.length_lines ▸ (List.getElem?_eq_some_iff.mp hi).1
  rw [seq_of_getElem? h hi]
  exact ⟨Nat.le_add_left 1 i,inside,hi⟩

theorem eq_of_seq_eq (h : a.Ordered) {line line' : Line σ} (hl : line∈a.lines)
    (hl' : line'∈a.lines) (e : line.seq=line'.seq) : line=line' := by
  have at_place := (getElem?_of_mem h hl).2.2
  rw [e,(getElem?_of_mem h hl').2.2] at at_place
  exact (Option.some.inj at_place).symm

theorem mem_seqs_shown (h : a.Ordered) {number : Nat} (le : number ≤ a.size) :
    number∈a.shown.lines.map Line.seq ↔ a.discarded<number := by
  rw [lines_shown,List.map_drop,seqs_lines h,List.drop_range',List.mem_range'_1]
  omega

theorem ended_of_mem_dropLast (h : a.Ordered) {line : Line σ}
    (hl : line∈a.shown.lines.dropLast) : line.terminated=true := by
  rw [LineBuffer.lines,List.dropLast_reverse,List.mem_reverse] at hl
  exact h.older line hl

theorem grows_onOpenLine (a : Archive σ) (edit : Line σ → Line σ) :
    a.size ≤ (a.onOpenLine edit).size := by
  rw [onOpenLine]
  split
  · exact Nat.le_of_eq (a.size_onNewestLine edit).symm
  · rw [size_onNewestLine]
    exact Nat.le_succ a.size

/-- Lines are neither taken out nor shown again. -/
theorem grows_change (a : Archive σ) (c : LineBuffer.Change σ) :
    a.size ≤ (a.change c).size ∧ a.discarded ≤ (a.change c).discarded := by
  cases c with
  | append runs =>
    constructor
    · refine write_induction (motive := fun a' => a.size ≤ a'.size) (Nat.le_refl _) ?_
      intro a' h _ _ edit _
      exact Nat.le_trans h (a'.grows_onOpenLine edit)
    · rw [← (a.write_fields runs).1]
      exact Nat.le_max_left _ _
  | setMaxLines maxLines => exact ⟨Nat.le_refl _,Nat.le_max_left _ _⟩
  | endOpenLine =>
    rw [change,endOpenLine]
    split
    · exact ⟨Nat.le_of_eq (a.size_onNewestLine _).symm,Nat.le_refl _⟩
    · exact ⟨Nat.le_refl _,Nat.le_refl _⟩
  | clear => exact ⟨Nat.le_refl _,a.discarded_le⟩

theorem grows_changeAll (a : Archive σ) (changes : List (LineBuffer.Change σ)) :
    a.size ≤ (a.changeAll changes).size ∧ a.discarded ≤ (a.changeAll changes).discarded := by
  refine List.foldlRecOn
    (motive := fun a' : Archive σ => a.size ≤ a'.size ∧ a.discarded ≤ a'.discarded) _ _
    ⟨Nat.le_refl _,Nat.le_refl _⟩ ?_
  intro a' h c _
  have more := a'.grows_change c
  exact ⟨Nat.le_trans h.1 more.1,Nat.le_trans h.2 more.2⟩

/-- Ended lines stay in the archive. -/
theorem mem_changeAll (h : a.Ordered) {line : Line σ} (hl : line∈a.lines)
    (ended : line.terminated=true) (changes : List (LineBuffer.Change σ)) :
    line∈(a.changeAll changes).lines := by
  have place := (getElem?_of_mem h hl).2.2
  exact List.mem_of_getElem? (a.settled_changeAll changes _ line place ended)

end Archive

namespace LinePrinter

/-- Of numbered lines, those beyond a number are the last ones. -/
theorem filter_lt_seq {lines : List (Line σ)} {start count : Nat}
    (h : lines.map Line.seq=List.range' start count) (seen : Nat) :
    lines.filter (fun line => decide (seen<line.seq))=lines.drop (seen+1-start) := by
  induction lines generalizing start count with
  | nil => rw [List.filter_nil,List.drop_nil]
  | cons line rest ih =>
    obtain ⟨count,rfl⟩ : ∃ n,count=n+1 := by
      cases count with
      | zero => cases h
      | succ n => exact ⟨n,rfl⟩
    rw [List.map_cons,List.range'_succ] at h
    obtain ⟨first,later⟩ := List.cons.inj h
    rw [List.filter_cons,ih later,first]
    by_cases before : seen<start
    · rw [if_pos (decide_eq_true before),Nat.sub_eq_zero_of_le before,
        Nat.sub_eq_zero_of_le (Nat.le_succ_of_le before),List.drop_zero,List.drop_zero]
    · have more : seen+1-start=seen+1-(start+1)+1 := by omega
      rw [if_neg (by simp [before]),more,List.drop_succ_cons]

/-- What is left for a printer: what is neither printed nor discarded. -/
theorem flush_shown {a : Archive σ} (h : a.Ordered) (printed : Nat) :
    flush printed a.shown=a.lines.drop (max a.discarded printed) := by
  have seqs : (a.lines.drop a.discarded).map Line.seq=
      List.range' (1+a.discarded) (a.size-a.discarded) := by
    rw [List.map_drop,Archive.seqs_lines h,List.drop_range']
    simp
  have skip : a.discarded+(printed+1-(1+a.discarded))=max a.discarded printed := by omega
  rw [flush,LineBuffer.linesSince,Archive.lines_shown,filter_lt_seq seqs,List.drop_drop,skip]

/-- Where a printer stands after it printed some lines. -/
def advance (printed : Nat) (lines : List (Line σ)) : Nat :=
  (lines.getLast?.map Line.seq).getD printed

/-- What a printer has printed of an archive, and what it missed. -/
structure Caught (a : Archive σ) (printed : Nat) (output : List (Line σ)) (missed : Nat → Prop) :
    Prop where
  printed_le : printed ≤ a.size
  ascending : (output.map Line.seq).Pairwise (·<·)
  placed : ∀ line∈output,line∈a.lines ∧ line.seq ≤ printed
  reached : ∀ number,1 ≤ number → number ≤ printed →
    (number∈output.map Line.seq ↔ ¬missed number)
  missed_le : ∀ number,missed number → number ≤ a.discarded
  passed : ∀ number,printed<number → number ≤ a.discarded → missed number

variable {a : Archive σ} {printed : Nat} {output : List (Line σ)} {missed : Nat → Prop}

theorem caught_new (maxLines : Nat) (h : ∀ number,¬missed number) :
    Caught (Archive.new maxLines : Archive σ) 0 [] missed where
  printed_le := Nat.le_refl 0
  ascending := List.Pairwise.nil
  placed := fun line hl => by cases hl
  reached := fun number pos le => absurd pos (Nat.not_lt_of_le le)
  missed_le := fun number hm => absurd hm (h number)
  passed := fun number pos le => absurd pos (Nat.not_lt_of_le le)

/-- A change of the log leaves what is printed, provided it was complete. What is discarded before
it was reached is missed. -/
theorem caught_changeAll (h : Caught a printed output missed) (sound : a.Ordered)
    (complete : ∀ line∈output,line.terminated=true) (changes : List (LineBuffer.Change σ))
    {missed' : Nat → Prop} (hm : ∀ number,missed' number ↔
      missed number ∨ (printed<number ∧ number ≤ (a.changeAll changes).discarded)) :
    Caught (a.changeAll changes) printed output missed' where
  printed_le := Nat.le_trans h.printed_le (a.grows_changeAll changes).1
  ascending := h.ascending
  placed := by
    intro line hl
    obtain ⟨there,le⟩ := h.placed line hl
    exact ⟨Archive.mem_changeAll sound there (complete line hl) changes,le⟩
  reached := by
    intro number pos le
    rw [h.reached number pos le,hm]
    constructor
    · rintro hn (before | ⟨later,_⟩)
      · exact hn before
      · exact absurd later (Nat.not_lt_of_le le)
    · exact fun hn before => hn (.inl before)
  missed_le := by
    intro number hn
    rcases (hm number).mp hn with before | ⟨_,gone⟩
    · exact Nat.le_trans (h.missed_le number before) (a.grows_changeAll changes).2
    · exact gone
  passed := fun number later gone => (hm number).mpr (.inr ⟨later,gone⟩)

/-- The lines of an archive between two places, with their numbers. -/
theorem seqs_leading (sound : a.Ordered) {lines : List (Line σ)} {start : Nat}
    (hp : lines <+: a.lines.drop start) :
    lines.map Line.seq=List.range' (start+1) lines.length := by
  obtain ⟨rest,hr⟩ := hp
  have whole : List.range' (1+start*1) (a.size-start)=lines.map Line.seq++rest.map Line.seq := by
    rw [← List.map_append,hr,List.map_drop,Archive.seqs_lines sound,List.drop_range']
  obtain ⟨count,_,first,_⟩ := List.range'_eq_append_iff.mp whole
  have length := congrArg List.length first
  rw [List.length_map,List.length_range'] at length
  rw [first,length,Nat.mul_one,Nat.add_comm]

theorem advance_leading (sound : a.Ordered) {lines : List (Line σ)} {start : Nat}
    (hp : lines <+: a.lines.drop start) (hne : lines≠[]) (printed : Nat) :
    advance printed lines=start+lines.length := by
  have pos : lines.length≠0 := fun h => hne (List.length_eq_zero_iff.mp h)
  rw [advance,← List.getLast?_map,seqs_leading sound hp,List.getLast?_range',if_neg pos]
  simp only [Option.getD_some]
  omega

/-- What a tick does not print is left for the next one. -/
theorem flush_tick (h : a.Ordered) (printed : Nat) :
    flush (tick printed a.shown).2 a.shown=
      (flush printed a.shown).dropWhile Line.terminated := by
  have whole := List.takeWhile_append_dropWhile (p := Line.terminated) (l := flush printed a.shown)
  generalize hr : (flush printed a.shown).takeWhile Line.terminated=ready at whole
  have moved : (tick printed a.shown).2=advance printed ready := hr ▸ rfl
  by_cases hne : ready=[]
  · rw [hne,List.nil_append] at whole
    rw [moved,hne]
    exact whole.symm
  · -- the printer now stands at the last line it printed, and the rest begins behind that
    have leading : ready <+: a.lines.drop (max a.discarded printed) := by
      rw [← flush_shown h,← hr]
      exact List.takeWhile_prefix _
    have onward : max a.discarded (max a.discarded printed+ready.length)=
        max a.discarded printed+ready.length := by omega
    rw [moved,flush_shown h,advance_leading h leading hne,onward,← List.drop_drop,← flush_shown h]
    nth_rewrite 1 [← whole]
    exact List.drop_left

/-- No ended line waits behind a tick: only the newest line can be open. -/
theorem open_of_waiting (h : a.Ordered) (printed : Nat) {line : Line σ}
    (waits : line∈(a.shown.linesSince (tick printed a.shown).2).lines) :
    line.terminated=false := by
  change line∈flush (tick printed a.shown).2 a.shown at waits
  rw [flush_tick h] at waits
  generalize hd : (flush printed a.shown).dropWhile Line.terminated=left at waits
  have suffix : left <:+ a.shown.lines := by
    rw [← hd,flush_shown h,a.lines_shown]
    exact (List.dropWhile_suffix _).trans (List.drop_suffix_drop_left _ (Nat.le_max_left _ _))
  cases left with
  | nil => cases waits
  | cons first rest =>
    have waiting : first.terminated=false := by
      have stop := List.head?_dropWhile_not Line.terminated (flush printed a.shown)
      rwa [hd] at stop
    have alone : rest=[] := by
      by_contra more
      obtain ⟨before,whole⟩ := suffix
      have inside : first∈a.shown.lines.dropLast := by
        rw [← whole,List.dropLast_append_of_ne_nil (List.cons_ne_nil first rest),
          List.dropLast_cons_of_ne_nil more]
        exact List.mem_append_right before List.mem_cons_self
      have ended := Archive.ended_of_mem_dropLast h inside
      rw [waiting] at ended
      cases ended
    rw [alone] at waits
    exact List.eq_of_mem_singleton waits ▸ waiting

/-- Printing on, from the first line that is neither printed nor discarded, misses nothing. -/
theorem caught_print (h : Caught a printed output missed) (sound : a.Ordered)
    {lines : List (Line σ)} (hp : lines <+: a.lines.drop (max a.discarded printed)) :
    Caught a (advance printed lines) (output++lines) missed := by
  by_cases hne : lines=[]
  · subst hne
    rwa [List.append_nil]
  have seqs := seqs_leading sound hp
  have last := advance_leading sound hp hne printed
  have inside : max a.discarded printed+lines.length ≤ a.size := by
    have := hp.length_le
    have : 0<lines.length := List.length_pos_iff.mpr hne
    rw [List.length_drop,a.length_lines] at *
    omega
  have new (number : Nat) : number∈lines.map Line.seq ↔
      max a.discarded printed<number ∧ number ≤ max a.discarded printed+lines.length := by
    rw [seqs,List.mem_range'_1]
    omega
  have old (number : Nat) (hm : number∈output.map Line.seq) : number ≤ printed := by
    obtain ⟨line,hl,rfl⟩ := List.mem_map.mp hm
    exact (h.placed line hl).2
  rw [last]
  constructor
  · exact inside
  · rw [List.map_append,List.pairwise_append]
    refine ⟨h.ascending,?_,?_⟩
    · rw [seqs]
      exact List.pairwise_lt_range'
    · intro m hm n hn
      have := old m hm
      have := (new n).mp hn
      omega
  · intro line hl
    rcases List.mem_append.mp hl with hl | hl
    · obtain ⟨there,le⟩ := h.placed line hl
      exact ⟨there,by omega⟩
    · exact ⟨List.mem_of_mem_drop (hp.mem hl),((new _).mp (List.mem_map_of_mem hl)).2⟩
  · intro number pos le
    rw [List.map_append,List.mem_append,new]
    by_cases seen : number ≤ printed
    · rw [← h.reached number pos seen]
      constructor
      · rintro (before | ⟨later,_⟩)
        · exact before
        · omega
      · exact .inl
    · constructor
      · rintro (before | ⟨later,_⟩) hm
        · exact seen (old number before)
        · have := h.missed_le number hm
          omega
      · intro hm
        right
        have : ¬number ≤ a.discarded := fun gone =>
          hm (h.passed number (Nat.lt_of_not_le seen) gone)
        omega
  · exact h.missed_le
  · intro number later gone
    exact h.passed number (by omega) gone

/-- When all that is left is printed, a number is printed just when it was not missed. -/
theorem mem_flushed (h : Caught a printed output missed) (sound : a.Ordered) {number : Nat}
    (pos : 1 ≤ number) (le : number ≤ a.size) :
    number∈(output++flush printed a.shown).map Line.seq ↔ ¬missed number := by
  rw [flush_shown sound]
  have caught := caught_print h sound (List.prefix_refl (a.lines.drop (max a.discarded printed)))
  by_cases seen : number ≤ advance printed (a.lines.drop (max a.discarded printed))
  · exact caught.reached number pos seen
  -- beyond the place where the printer stops there are only discarded lines
  have gone : number ≤ a.discarded := by
    by_cases hne : a.lines.drop (max a.discarded printed)=[]
    · rw [hne] at seen
      have short := List.drop_eq_nil_iff.mp hne
      rw [a.length_lines] at short
      change ¬number ≤ printed at seen
      omega
    · rw [advance_leading sound (List.prefix_refl _) hne,List.length_drop,a.length_lines] at seen
      omega
  have miss := caught.passed number (Nat.lt_of_not_le seen) gone
  constructor
  · intro hm
    obtain ⟨line,hl,rfl⟩ := List.mem_map.mp hm
    exact absurd (caught.placed line hl).2 seen
  · exact fun hn => absurd miss hn

theorem ascending_flushed (h : Caught a printed output missed) (sound : a.Ordered) :
    ((output++flush printed a.shown).map Line.seq).Pairwise (·<·) := by
  rw [flush_shown sound]
  exact (caught_print h sound (List.prefix_refl _)).ascending

/-- A printer that missed nothing printed everything. -/
theorem flushed_of_none_missed (h : Caught a printed output missed) (sound : a.Ordered)
    (none : ∀ number,¬missed number) : output++flush printed a.shown=a.lines := by
  have ascending := ascending_flushed h sound
  have whole : (a.lines.map Line.seq).Pairwise (·<·) := by
    rw [Archive.seqs_lines sound]
    exact List.pairwise_lt_range'
  have there : ∀ line∈output++flush printed a.shown,line∈a.lines := by
    rw [flush_shown sound]
    exact fun line hl =>
      ((caught_print h sound (List.prefix_refl _)).placed line hl).1
  have same (line : Line σ) : line∈output++flush printed a.shown ↔ line∈a.lines := by
    refine ⟨there line,fun hl => ?_⟩
    obtain ⟨pos,le,_⟩ := Archive.getElem?_of_mem sound hl
    obtain ⟨line',hl',e⟩ := List.mem_map.mp ((mem_flushed h sound pos le).mpr (none line.seq))
    rwa [← Archive.eq_of_seq_eq sound (there line' hl') hl e]
  rw [List.pairwise_map] at ascending whole
  have distinct {l : List (Line σ)} (hl : l.Pairwise (fun a b => a.seq<b.seq)) : l.Nodup :=
    hl.imp (fun lt e => absurd (congrArg Line.seq e) (Nat.ne_of_lt lt))
  have perm := (List.perm_ext_iff_of_nodup (distinct ascending) (distinct whole)).mpr same
  exact perm.eq_of_pairwise (fun _ _ _ _ lt gt => absurd gt (Nat.lt_asymm lt)) ascending whole

end LinePrinter

end FleetConsole
