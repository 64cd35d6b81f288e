import FleetConsole.Proofs.LineBuffer.Archive
import Mathlib.Data.List.Range

namespace FleetConsole

variable {σ : Type}

/-- No run is empty or reaches over the end of the line. -/
def Line.Clean (line : Line σ) : Prop := ∀ run∈line.lastFirst,run.text≠[] ∧ '\n'∉run.text

/-- A line is only open because something was written to it. -/
structure Line.Sound (line : Line σ) : Prop where
  clean : line.Clean
  begun : line.terminated=false → line.lastFirst≠[]

theorem Line.clean_push {line : Line σ} (h : line.Clean) {run : Run σ} (hne : run.text≠[])
    (hn : '\n'∉run.text) : (line.push run).Clean := by
  intro r hr
  cases hr with
  | head => exact ⟨hne,hn⟩
  | tail _ hr => exact h r hr

/-- A run leaves a line under its number and makes a sound line of a clean one. -/
theorem Run.sound_of_mem_edits {run : Run σ} {edit : Line σ → Line σ} (h : edit∈run.edits)
    {line : Line σ} (hl : line.Clean) : (edit line).seq=line.seq ∧ (edit line).Sound := by
  have content (text : List Char) (ht : text∈Text.fields '\n' run.text)
      (he : edit∈edits.content run text) : (edit line).seq=line.seq ∧ (edit line).Sound := by
    rw [edits.content] at he
    split at he
    · cases he
    next hne =>
      obtain rfl := List.mem_singleton.mp he
      exact ⟨rfl,Line.clean_push hl hne (Text.not_mem_of_mem_fields ht),
        fun _ => List.cons_ne_nil _ _⟩
  have finish : line.finish.seq=line.seq ∧ line.finish.Sound :=
    ⟨rfl,hl,fun ht => by cases ht⟩
  rw [edits] at h
  cases hf : Text.fields '\n' run.text with
  | nil =>
    rw [hf] at h
    cases h
  | cons first later =>
    rw [hf] at h content
    rcases List.mem_append.mp h with h | h
    · exact content first List.mem_cons_self h
    · obtain ⟨text,ht,h⟩ := List.mem_flatMap.mp h
      rcases List.mem_cons.mp h with rfl | h
      · exact finish
      · exact content text (List.mem_cons_of_mem _ ht) h

namespace Archive

/-- Lines are numbered in order, and of those still shown all but the newest are ended. -/
structure Ordered (a : Archive σ) : Prop where
  numbers : a.newestFirst.map Line.seq=(List.range' 1 a.size).reverse
  older : ∀ line∈a.shown.newestFirst.tail,line.terminated=true
  limit : 1 ≤ a.maxLines

structure Sound (a : Archive σ) : Prop extends a.Ordered where
  lines : ∀ line∈a.newestFirst,line.Sound

variable {a : Archive σ}

theorem sound_new (maxLines : Nat) : (new maxLines : Archive σ).Sound where
  numbers := rfl
  lines := fun line h => by cases h
  older := fun line h => by cases h
  limit := Nat.le_max_left 1 maxLines

/-- Where the newest line shown is not open, all lines shown are ended. -/
theorem ended_of_not_open (h : a.Ordered) (closed : a.hasOpenLine=false) :
    ∀ line∈a.shown.newestFirst,line.terminated=true := by
  have older := h.older
  rw [← hasOpenLine_shown,LineBuffer.hasOpenLine_eq] at closed
  intro line hl
  cases hs : a.shown.newestFirst with
  | nil =>
    rw [hs] at hl
    cases hl
  | cons newest rest =>
    rw [hs] at hl closed older
    rcases List.mem_cons.mp hl with rfl | hl
    · simpa using closed
    · exact older line hl

theorem ordered_openLine (h : a.Ordered) (closed : a.hasOpenLine=false) : a.openLine.Ordered where
  numbers := by
    have size : a.openLine.size=a.size+1 := rfl
    have newest : a.openLine.newestFirst.map Line.seq=
      (a.size+1) :: a.newestFirst.map Line.seq := rfl
    rw [newest,h.numbers,size,List.range'_concat,List.reverse_append,Nat.one_mul,Nat.add_comm 1]
    rfl
  older := by
    rw [shown_openLine]
    exact ended_of_not_open h closed
  limit := h.limit

theorem ordered_onNewestLine (h : a.Ordered) {edit : Line σ → Line σ}
    (he : ∀ line∈a.newestFirst,(edit line).seq=line.seq) : (a.onNewestLine edit).Ordered where
  numbers := by
    rw [size_onNewestLine,← h.numbers]
    change (a.newestFirst.modifyHead edit).map Line.seq=_
    cases hl : a.newestFirst with
    | nil => rfl
    | cons line older =>
      rw [List.modifyHead_cons,List.map_cons,he line (hl ▸ List.mem_cons_self)]
      rfl
  older := by
    rw [shown_onNewestLine]
    dsimp only
    rw [List.tail_modifyHead]
    exact h.older
  limit := h.limit

theorem sound_onNewestLine (h : a.Ordered) (older : ∀ line∈a.newestFirst.tail,line.Sound)
    (newest : ∀ line∈a.newestFirst.head?,line.Clean) {edit : Line σ → Line σ}
    (he : ∀ line,line.Clean → (edit line).seq=line.seq ∧ (edit line).Sound) :
    (a.onNewestLine edit).Sound := by
  have clean : ∀ line∈a.newestFirst,line.Clean := by
    intro line hl
    cases hs : a.newestFirst with
    | nil =>
      rw [hs] at hl
      cases hl
    | cons first rest =>
      rw [hs] at hl older newest
      rcases List.mem_cons.mp hl with rfl | hl
      · exact newest line rfl
      · exact (older line hl).clean
  refine ⟨ordered_onNewestLine h (fun line hl => (he line (clean line hl)).1),?_⟩
  change ∀ line∈a.newestFirst.modifyHead edit,line.Sound
  intro line hl
  cases hs : a.newestFirst with
  | nil =>
    rw [hs] at hl
    cases hl
  | cons first rest =>
    rw [hs] at hl clean older
    rcases List.mem_cons.mp hl with rfl | hl
    · exact (he first (clean first List.mem_cons_self)).2
    · exact older line hl

theorem sound_onOpenLine (h : a.Sound) {edit : Line σ → Line σ}
    (he : ∀ line,line.Clean → (edit line).seq=line.seq ∧ (edit line).Sound) :
    (a.onOpenLine edit).Sound := by
  rw [onOpenLine]
  cases ho : a.hasOpenLine with
  | true =>
    exact sound_onNewestLine h.toOrdered (fun line hl => h.lines line (List.mem_of_mem_tail hl))
      (fun line hl => (h.lines line (List.mem_of_mem_head? hl)).clean) he
  | false =>
    refine sound_onNewestLine (ordered_openLine h.toOrdered ho) h.lines ?_ he
    intro line hl run hr
    obtain rfl : ⟨a.size+1,[],false⟩=line := Option.some.inj hl
    cases hr

theorem sound_write (h : a.Sound) (runs : List (Run σ)) : (a.write runs).Sound :=
  write_induction h (fun _ ha _ _ _ hedit =>
    sound_onOpenLine ha (fun _ hl => Run.sound_of_mem_edits hedit hl))

theorem mem_tail_of_mem_tail_take {α : Type} {l : List α} {n : Nat} {x : α}
    (h : x∈(l.take n).tail) : x∈l.tail := by
  rw [← List.drop_one,List.drop_take,List.drop_one] at h
  exact List.mem_of_mem_take h

/-- Discarding more changes nothing about the lines that are left. -/
theorem sound_of_discarded {a' : Archive σ} (h : a.Sound) (same : a'.newestFirst=a.newestFirst)
    (limit : 1 ≤ a'.maxLines) (more : a.discarded ≤ a'.discarded) : a'.Sound where
  numbers := by
    have size : a'.size=a.size := congrArg List.length same
    rw [same,size]
    exact h.numbers
  older := by
    have size : a'.size=a.size := congrArg List.length same
    have fewer : a'.size-a'.discarded ≤ a.size-a.discarded := by omega
    have shown : a'.shown.newestFirst=a.shown.newestFirst.take (a'.size-a'.discarded) := by
      rw [shown,shown,same,List.take_take,Nat.min_eq_left fewer]
    intro line hl
    rw [shown] at hl
    exact h.older line (mem_tail_of_mem_tail_take hl)
  limit := limit
  lines := by
    rw [same]
    exact h.lines

theorem sound_discard (h : a.Sound) : a.discard.Sound :=
  sound_of_discarded h rfl h.limit (Nat.le_max_left _ _)

theorem sound_endOpenLine (h : a.Sound) : a.endOpenLine.Sound := by
  rw [endOpenLine]
  split
  · exact sound_onNewestLine h.toOrdered (fun line hl => h.lines line (List.mem_of_mem_tail hl))
      (fun line hl => (h.lines line (List.mem_of_mem_head? hl)).clean)
      (fun line hl => ⟨rfl,hl,fun ht => by cases ht⟩)
  · exact h

theorem sound_setMaxLines (h : a.Sound) (maxLines : Nat) :
    ({ a with maxLines := max 1 maxLines } : Archive σ).Sound :=
  sound_of_discarded h rfl (Nat.le_max_left 1 maxLines) (Nat.le_refl _)

theorem sound_change (h : a.Sound) (c : LineBuffer.Change σ) : (a.change c).Sound := by
  cases c with
  | append runs => exact sound_discard (sound_write h runs)
  | setMaxLines maxLines => exact sound_discard (sound_setMaxLines h maxLines)
  | endOpenLine => exact sound_endOpenLine h
  | clear => exact sound_of_discarded h rfl h.limit a.discarded_le

theorem sound_changeAll (maxLines : Nat) (changes : List (LineBuffer.Change σ)) :
    ((new maxLines).changeAll changes).Sound :=
  List.foldlRecOn _ _ (sound_new maxLines) (fun _ h c _ => sound_change h c)

/-- No more is left than the limit allows. -/
def Fits (a : Archive σ) : Prop := a.size ≤ a.discarded+a.maxLines

theorem fits_discard (a : Archive σ) : a.discard.Fits := by
  change a.size ≤ max a.discarded (a.size-a.maxLines)+a.maxLines
  omega

theorem fits_change (h : a.Fits) (c : LineBuffer.Change σ) : (a.change c).Fits := by
  cases c with
  | append runs => exact fits_discard _
  | setMaxLines maxLines => exact fits_discard _
  | endOpenLine =>
    rw [change,endOpenLine]
    split
    · rw [Fits,size_onNewestLine]
      exact h
    · exact h
  | clear => exact Nat.le_add_right _ _

theorem fits_changeAll (maxLines : Nat) (changes : List (LineBuffer.Change σ)) :
    ((new maxLines).changeAll changes).Fits :=
  List.foldlRecOn _ _ (Nat.zero_le _) (fun _ h c _ => fits_change h c)

/-- Lines that are shown and older than the newest are ended. -/
theorem ended_of_older (h : a.Sound) {i : Nat} (shown : a.discarded ≤ i) (older : i+1<a.size)
    {line : Line σ} (hl : a.lines[i]?=some line) : line.terminated=true := by
  apply h.older line
  obtain ⟨j,rfl⟩ := Nat.exists_eq_add_of_le shown
  have size := a.size_shown
  rw [← List.getElem?_drop,← lines_shown,LineBuffer.lines] at hl
  cases hs : a.shown.newestFirst with
  | nil =>
    rw [hs] at hl
    cases hl
  | cons newest rest =>
    rw [LineBuffer.size,hs,List.length_cons] at size
    have inside : j<rest.reverse.length := by
      rw [List.length_reverse]
      omega
    rw [hs,List.reverse_cons,List.getElem?_append_left inside] at hl
    exact List.mem_reverse.mp (List.mem_of_getElem? hl)

/-- Discarding beyond the limit spares the newest line, and takes ended lines only. -/
theorem ended_of_discard (h : a.Sound) {i : Nat} (shown : a.discarded ≤ i)
    (gone : i<a.discard.discarded) {line : Line σ} (hl : a.lines[i]?=some line) :
    line.terminated=true := by
  have after : a.discard.discarded=max a.discarded (a.size-a.maxLines) := rfl
  have limit := h.limit
  exact ended_of_older h shown (by omega) hl

theorem discarded_discard_lt (h : 1 ≤ a.maxLines) (newest : a.discarded<a.size) :
    a.discard.discarded<a.size := by
  have after : a.discard.discarded=max a.discarded (a.size-a.maxLines) := rfl
  omega

/-- Only a clear discards the newest line or an open one. -/
theorem evicted_of_change (h : a.Sound) {c : LineBuffer.Change σ} (hc : c≠.clear) :
    (a.discarded<(a.change c).size → (a.change c).discarded<(a.change c).size) ∧
    ∀ (i : Nat) (line : Line σ),a.discarded ≤ i → i<(a.change c).discarded →
      (a.change c).lines[i]?=some line → line.terminated=true := by
  cases c with
  | append runs =>
    have written := sound_write h runs
    have before := (a.write_fields runs).1
    constructor
    · intro newest
      exact discarded_discard_lt written.limit (before ▸ newest)
    · intro i line shown gone hl
      exact ended_of_discard written (before ▸ shown) gone hl
  | setMaxLines maxLines =>
    have changed := sound_setMaxLines h maxLines
    constructor
    · intro newest
      exact discarded_discard_lt changed.limit newest
    · intro i line shown gone hl
      exact ended_of_discard changed shown gone hl
  | endOpenLine =>
    have same : (a.change .endOpenLine).discarded=a.discarded := by
      rw [change,endOpenLine]
      split <;> rfl
    rw [same]
    exact ⟨id,fun i line shown gone => absurd gone (Nat.not_lt_of_le shown)⟩
  | clear => exact absurd rfl hc

/-- Every line that is ended stays what and where it is. -/
def Settled (a a' : Archive σ) : Prop :=
  ∀ (i : Nat) (line : Line σ),a.lines[i]?=some line → line.terminated=true → a'.lines[i]?=some line

theorem settled_openLine (a : Archive σ) : a.Settled a.openLine := by
  intro i line hl _
  have opened : a.openLine.lines=a.lines++[⟨a.size+1,[],false⟩] := List.reverse_cons
  rw [opened,List.getElem?_append_left (List.getElem?_eq_some_iff.mp hl).1]
  exact hl

theorem settled_onNewestLine (h : ∀ line∈a.newestFirst.head?,line.terminated=false)
    (edit : Line σ → Line σ) : a.Settled (a.onNewestLine edit) := by
  intro i line hl ht
  change (a.newestFirst.modifyHead edit).reverse[i]?=some line
  rw [lines] at hl
  cases hs : a.newestFirst with
  | nil =>
    rw [hs] at hl
    cases hl
  | cons newest older =>
    rw [hs,List.reverse_cons] at hl
    rw [List.modifyHead_cons,List.reverse_cons]
    by_cases hi : i<older.reverse.length
    · rw [List.getElem?_append_left hi] at hl ⊢
      exact hl
    · rw [List.getElem?_append_right (Nat.le_of_not_lt hi)] at hl
      obtain rfl := List.mem_singleton.mp (List.mem_of_getElem? hl)
      rw [h line (by rw [hs]; rfl)] at ht
      cases ht

theorem newest_of_hasOpenLine (h : a.hasOpenLine=true) :
    ∀ line∈a.newestFirst.head?,line.terminated=false := by
  intro line hl
  rw [hasOpenLine,Option.mem_def.mp hl] at h
  simpa using (Bool.and_eq_true_iff.mp h).2

theorem settled_onOpenLine (a : Archive σ) (edit : Line σ → Line σ) :
    a.Settled (a.onOpenLine edit) := by
  rw [onOpenLine]
  cases ho : a.hasOpenLine with
  | true => exact settled_onNewestLine (newest_of_hasOpenLine ho) edit
  | false =>
    have fresh : ∀ line∈a.openLine.newestFirst.head?,line.terminated=false := by
      intro line hl
      obtain rfl : ⟨a.size+1,[],false⟩=line := Option.some.inj hl
      rfl
    intro i line hl ht
    exact settled_onNewestLine fresh edit i line (a.settled_openLine i line hl ht) ht

theorem settled_write (a : Archive σ) (runs : List (Run σ)) : a.Settled (a.write runs) := by
  refine write_induction (motive := fun a' => a.Settled a') (fun _ _ hl _ => hl) ?_
  intro a' h _ _ edit _ i line hl ht
  exact a'.settled_onOpenLine edit i line (h i line hl ht) ht

theorem settled_change (a : Archive σ) (c : LineBuffer.Change σ) : a.Settled (a.change c) := by
  cases c with
  | append runs => exact a.settled_write runs
  | setMaxLines maxLines => exact fun _ _ hl _ => hl
  | endOpenLine =>
    rw [change,endOpenLine]
    cases ho : a.hasOpenLine with
    | true => exact settled_onNewestLine (newest_of_hasOpenLine ho) Line.finish
    | false => exact fun _ _ hl _ => hl
  | clear => exact fun _ _ hl _ => hl

theorem settled_changeAll (a : Archive σ) (changes : List (LineBuffer.Change σ)) :
    a.Settled (a.changeAll changes) := by
  refine List.foldlRecOn _ _ (fun _ _ hl _ => hl) ?_
  intro a' h c _ i line hl ht
  exact a'.settled_change c i line (h i line hl ht) ht

end Archive

namespace LineBuffer

/-- After any changes the lines of a buffer are all lines ever opened without the discarded ones,
each with the number of its place. The newest one is kept, and ended ones stay as they are. -/
theorem buffer_slides (maxLines : Nat) (changes : List (Change σ)) :
    let b := (new maxLines : LineBuffer σ).changeAll changes
    let a := (Archive.new maxLines : Archive σ).changeAll changes
    b.lines=a.lines.drop a.discarded ∧
    (∀ (i : Nat) (line : Line σ),a.lines[i]?=some line → line.seq=i+1) ∧
    b.lastSeq=a.lines.length ∧
    (∀ c evicted,(b.change c).1=some evicted → (a.change c).discarded=a.discarded+evicted) ∧
    b.size ≤ b.maxLines ∧ 1 ≤ b.maxLines ∧
    (∀ line∈b.lines.dropLast,line.terminated=true) ∧
    (∀ c,c≠.clear →
      (a.discarded<(a.change c).lines.length →
        (a.change c).discarded<(a.change c).lines.length) ∧
      ∀ (i : Nat) (line : Line σ),a.discarded ≤ i → i<(a.change c).discarded →
        (a.change c).lines[i]?=some line → line.terminated=true) ∧
    (∀ line∈a.lines,(∀ run∈line.runs,run.text≠[] ∧ '\n'∉run.text) ∧
      (line.terminated=false → line.runs≠[])) ∧
    ∀ later (i : Nat) (line : Line σ),a.lines[i]?=some line → line.terminated=true →
      (a.changeAll later).lines[i]?=some line := by
  intro b a
  have shown : a.shown=b := Archive.shown_changeAll _ changes
  have sound : a.Sound := Archive.sound_changeAll maxLines changes
  have length (a : Archive σ) : a.lines.length=a.size := List.length_reverse
  have size := a.size_shown
  have fits : a.size ≤ a.discarded+a.maxLines := Archive.fits_changeAll maxLines changes
  rw [← shown]
  refine ⟨a.lines_shown,?_,(length a).symm,fun c evicted h => a.discarded_change h,?_,
    sound.limit,?_,?_,?_,a.settled_changeAll⟩
  · intro i line hl
    have numbers : a.lines.map Line.seq=List.range' 1 a.size := by
      rw [Archive.lines,List.map_reverse,sound.numbers,List.reverse_reverse]
    have number : (a.lines.map Line.seq)[i]?=some line.seq := by
      rw [List.getElem?_map,hl,Option.map_some]
    have inside : i<a.size := length a ▸ (List.getElem?_eq_some_iff.mp hl).1
    rw [numbers,List.getElem?_range' inside] at number
    have := Option.some.inj number
    omega
  · change a.shown.size ≤ a.maxLines
    omega
  · intro line hl
    rw [lines,List.dropLast_reverse] at hl
    exact sound.older line (List.mem_reverse.mp hl)
  · intro c hc
    rw [length]
    exact Archive.evicted_of_change sound hc
  · intro line hl
    have whole := sound.lines line (List.mem_reverse.mp hl)
    refine ⟨fun run hr => whole.clean run (List.mem_reverse.mp hr),?_⟩
    intro ht he
    exact whole.begun ht (List.reverse_eq_nil_iff.mp he)

/-- A half line that is cleared away is not continued, and its number is not given out again. -/
example :
    ((new 2 : LineBuffer Unit).changeAll
      [.append [⟨(),"a\nb\nhal".toList⟩],.clear,.append [⟨(),"f\ng".toList⟩],.endOpenLine]).lines=
      [⟨4,[⟨(),['f']⟩],true⟩,⟨5,[⟨(),['g']⟩],true⟩] := by decide

end LineBuffer

end FleetConsole
