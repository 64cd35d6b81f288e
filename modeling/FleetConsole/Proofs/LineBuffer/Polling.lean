import FleetConsole.Proofs.LinePrinter

namespace FleetConsole

variable {σ : Type}

namespace Archive

/-- The lines that are discarded. -/
def gone (a : Archive σ) : List (Line σ) := a.lines.take a.discarded

theorem gone_append_shown (a : Archive σ) : a.gone++a.shown.lines=a.lines := by
  rw [lines_shown]
  exact List.take_append_drop _ _

variable {a : Archive σ}

theorem length_gone (a : Archive σ) : a.gone.length=a.discarded := by
  have fewer : a.discarded ≤ a.size := a.discarded_le
  rw [gone,List.length_take,length_lines,Nat.min_eq_left fewer]

theorem seqs_gone (h : a.Ordered) : a.gone.map Line.seq=List.range' 1 a.discarded := by
  have leading : a.gone <+: a.lines.drop 0 := List.take_prefix _ _
  rw [LinePrinter.seqs_leading h leading,length_gone]

/-- The oldest line shown comes right after those that are gone. -/
theorem seq_oldest (h : a.Ordered) {oldest : Line σ} (head : oldest∈a.shown.lines.head?) :
    oldest.seq=a.discarded+1 := by
  apply seq_of_getElem? h
  rw [lines_shown,List.head?_drop] at head
  exact head

/-- Lines that are gone lie before the oldest line shown, and some of them after a line seen. -/
theorem filter_gone (h : a.Ordered) (seen : Nat) :
    a.gone.filter (fun line => decide (seen<line.seq ∧ line.seq<a.discarded+1))=
      a.gone.drop seen := by
  have before : ∀ line∈a.gone,line.seq<a.discarded+1 := by
    intro line member
    have number : line.seq∈List.range' 1 a.discarded := seqs_gone h ▸ List.mem_map_of_mem member
    have := List.mem_range'_1.mp number
    omega
  have same : a.gone.filter (fun line => decide (seen<line.seq ∧ line.seq<a.discarded+1))=
      a.gone.filter (fun line => decide (seen<line.seq)) := by
    apply List.filter_congr
    intro line member
    simp [before line member]
  rw [same]
  exact LinePrinter.filter_lt_seq (seqs_gone h) seen

theorem lines_since (h : a.Ordered) (seen : Nat) :
    (a.shown.linesSince seen).lines=a.lines.drop (max a.discarded seen) :=
  LinePrinter.flush_shown h seen

theorem gap_since (h : a.Ordered) (seen : Nat) {oldest : Line σ}
    (head : oldest∈a.shown.lines.head?) :
    (a.shown.linesSince seen).gap=if seen<a.discarded then some oldest.seq else none := by
  have number := seq_oldest h head
  rw [LineBuffer.linesSince,Option.mem_def.mp head]
  simp [number]

end Archive

namespace LineBuffer

/-- A poll gives the retained lines beyond the last one seen, and a gap just when some line not
seen is gone, from which its reader can tell how many are. -/
theorem polls_miss_nothing_silently (maxLines : Nat) (changes : List (Change σ)) (seen : Nat) :
    let b := (new maxLines : LineBuffer σ).changeAll changes
    let a := (Archive.new maxLines : Archive σ).changeAll changes
    let poll := b.linesSince seen
    a.gone++b.lines=a.lines ∧
    poll.lines=b.lines.filter (fun line => decide (seen<line.seq)) ∧
    (∃ first,poll.lines.map Line.seq=List.range' first poll.lines.length) ∧
    (∀ last∈poll.lines.getLast?,last.seq=b.lastSeq) ∧
    (∀ oldest∈b.lines.head?,
      let missing := a.gone.filter (fun line => decide (seen<line.seq ∧ line.seq<oldest.seq))
      ∀ number,
        (poll.gap=some number ↔ number=oldest.seq ∧ missing≠[]) ∧
        (poll.gap=some number → missing.length=number-seen-1)) ∧
    (b.lines≠[] → poll.gap=none → poll.lines.length=b.lastSeq-seen) ∧
    (b.lines=[] → poll=⟨[],none⟩) := by
  intro b a poll
  have shown : a.shown=b := Archive.shown_changeAll _ changes
  have ordered : a.Ordered := (Archive.sound_changeAll maxLines changes).toOrdered
  have last : b.lastSeq=a.size := by
    rw [← shown]
    rfl
  have rest : poll.lines=a.lines.drop (max a.discarded seen) := by
    rw [← Archive.lines_since ordered,shown]
  have leading : poll.lines <+: a.lines.drop (max a.discarded seen) :=
    rest ▸ List.prefix_refl poll.lines
  have length : poll.lines.length=a.size-max a.discarded seen := by
    rw [rest,List.length_drop,a.length_lines]
  have gap : ∀ oldest∈b.lines.head?,
      poll.gap=if seen<a.discarded then some oldest.seq else none := by
    intro oldest head
    rw [← shown] at head
    rw [← Archive.gap_since ordered seen head,shown]
  refine ⟨?_,rfl,⟨_,LinePrinter.seqs_leading ordered leading⟩,?_,?_,?_,?_⟩
  · rw [← shown]
    exact a.gone_append_shown
  · intro newest member
    have nonempty : poll.lines≠[] := List.ne_nil_of_mem (List.mem_of_getLast? member)
    have pos : poll.lines.length≠0 := fun zero => nonempty (List.length_eq_zero_iff.mp zero)
    have reached := LinePrinter.advance_leading ordered leading nonempty seen
    rw [LinePrinter.advance,Option.mem_def.mp member,Option.map_some,Option.getD_some] at reached
    omega
  · intro oldest head missing number
    have place := Archive.seq_oldest ordered (shown ▸ head)
    have size : missing.length=a.discarded-seen := by
      have lost := congrArg List.length (Archive.filter_gone ordered seen)
      rwa [List.length_drop,Archive.length_gone,← place] at lost
    have missed : missing≠[] ↔ seen<a.discarded := by
      rw [← List.length_pos_iff,size,Nat.sub_pos_iff_lt]
    rw [gap oldest head,missed]
    by_cases behind : seen<a.discarded
    · rw [if_pos behind,Option.some_inj]
      exact ⟨⟨fun same => ⟨same.symm,behind⟩,fun same => same.1.symm⟩,fun same => by omega⟩
    · simp [behind]
  · intro nonempty silent
    obtain ⟨oldest,head⟩ : ∃ oldest,b.lines.head?=some oldest :=
      Option.isSome_iff_exists.mp (List.isSome_head?.mpr nonempty)
    have caught : ¬seen<a.discarded := by
      intro behind
      rw [gap oldest head,if_pos behind] at silent
      cases silent
    rw [length,last,Nat.max_eq_right (Nat.le_of_not_lt caught)]
  · intro empty
    change linesSince b seen=_
    rw [linesSince,empty]
    rfl

/-- Who saw the line right before the oldest one has missed nothing. -/
example :
    let b := (new 2 : LineBuffer Unit).changeAll [.append [⟨(),"a\nb\nc\n".toList⟩]]
    (b.linesSince 0).gap=some 2 ∧ (b.linesSince 1).gap=none := by decide

end LineBuffer

end FleetConsole
