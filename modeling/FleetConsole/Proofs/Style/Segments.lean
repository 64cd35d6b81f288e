import FleetConsole.Style.Scan
import FleetConsole.Proofs.Text.Fields

namespace FleetConsole.Style

def introducer : List Char := [escape,'[']

theorem introducer_prefix_cons {c : Char} {segment : List Char}
    (h : introducer<+:c :: segment) : ∃ tail,c=escape ∧ segment = '[' :: tail := by
  obtain ⟨tail,h⟩ := h
  simp only [introducer,List.cons_append,List.nil_append,List.cons.injEq] at h
  exact ⟨tail,h.1.symm,h.2.symm⟩

theorem extendSegments_opening (tail : List Char) (later : List (List Char)) :
    extendSegments escape (('[' :: tail) :: later)=[] :: tail :: later := rfl

theorem extendSegments_plain {c : Char} {segment : List Char}
    (h : ¬introducer<+:c :: segment) (later : List (List Char)) :
    extendSegments c (segment :: later)=(c :: segment) :: later := by
  unfold extendSegments
  split
  next none => simp at none
  next tail more same =>
    obtain ⟨rfl,rfl⟩ := List.cons.inj same
    apply if_neg
    intro opens
    apply h
    rw [opens]
    exact ⟨tail,rfl⟩
  next same =>
    obtain ⟨rfl,rfl⟩ := List.cons.inj same
    rfl

theorem extendSegments_of_ne {c : Char} (h : c≠escape) (segment : List Char)
    (later : List (List Char)) :
    extendSegments c (segment :: later)=(c :: segment) :: later := by
  apply extendSegments_plain
  intro opens
  obtain ⟨tail,same,_⟩ := introducer_prefix_cons opens
  exact h same

theorem segments_cons (c : Char) (text : List Char) :
    segments (c :: text)=extendSegments c (segments text) := rfl

theorem segments_ne_nil (text : List Char) : segments text≠[] := by
  induction text with
  | nil => simp [segments]
  | cons c rest ih =>
    obtain ⟨segment,later,hs⟩ := List.exists_cons_of_ne_nil ih
    rw [segments_cons,hs]
    by_cases h : introducer<+:c :: segment
    · obtain ⟨tail,rfl,rfl⟩ := introducer_prefix_cons h
      simp [extendSegments_opening]
    · simp [extendSegments_plain h]

theorem exists_last_segment (text : List Char) : ∃ init last,segments text=init++[last] := by
  obtain ⟨init,last,hs⟩ :=
    (List.eq_nil_or_concat (segments text)).resolve_left (segments_ne_nil text)
  exact ⟨init,last,hs.trans List.concat_eq_append⟩

/-- One more character in front reaches no further than the first segment. -/
theorem extendSegments_append (c : Char) {front : List (List Char)} (nonempty : front≠[])
    (later : List (List Char)) :
    extendSegments c (front++later)=extendSegments c front++later := by
  obtain ⟨segment,more,rfl⟩ := List.exists_cons_of_ne_nil nonempty
  by_cases h : introducer<+:c :: segment
  · obtain ⟨tail,rfl,rfl⟩ := introducer_prefix_cons h
    simp [extendSegments_opening]
  · simp [extendSegments_plain h]

theorem segments_introducer (text : List Char) :
    segments (introducer++text)=[] :: segments text := by
  obtain ⟨segment,later,hs⟩ := List.exists_cons_of_ne_nil (segments_ne_nil text)
  have bracket : segments ('[' :: text)=('[' :: segment) :: later := by
    rw [segments_cons,hs]
    exact extendSegments_of_ne (by decide) segment later
  rw [introducer,List.cons_append,List.singleton_append,segments_cons,bracket,hs]
  exact extendSegments_opening segment later

/-- An introducer parts a text, whatever stands on either side of it. -/
theorem segments_append_introducer (before after : List Char) :
    segments (before++(introducer++after))=segments before++segments after := by
  induction before with
  | nil => exact segments_introducer after
  | cons c rest ih =>
    rw [List.cons_append,segments_cons,ih,segments_cons]
    exact extendSegments_append c (segments_ne_nil rest) (segments after)

theorem intercalate_segments (text : List Char) : introducer.intercalate (segments text)=text := by
  induction text with
  | nil => rfl
  | cons c rest ih =>
    obtain ⟨segment,later,hs⟩ := List.exists_cons_of_ne_nil (segments_ne_nil rest)
    rw [hs,Text.intercalate_cons] at ih
    rw [segments_cons,hs]
    by_cases h : introducer<+:c :: segment
    · obtain ⟨tail,rfl,rfl⟩ := introducer_prefix_cons h
      rw [extendSegments_opening,Text.intercalate_cons,← ih]
      simp [introducer]
    · rw [extendSegments_plain h,Text.intercalate_cons,List.cons_append,ih]

theorem not_introducer_infix_segment {text segment : List Char} (h : segment∈segments text) :
    ¬introducer<:+:segment := by
  induction text generalizing segment with
  | nil =>
    have empty : segment=[] := by simpa [segments] using h
    simp [empty,introducer]
  | cons c rest ih =>
    obtain ⟨first,later,hs⟩ := List.exists_cons_of_ne_nil (segments_ne_nil rest)
    rw [hs] at ih
    rw [segments_cons,hs] at h
    have whole := ih List.mem_cons_self
    by_cases opens : introducer<+:c :: first
    · obtain ⟨tail,rfl,rfl⟩ := introducer_prefix_cons opens
      rw [extendSegments_opening] at h
      rcases List.mem_cons.mp h with rfl | h
      · simp [introducer]
      rcases List.mem_cons.mp h with rfl | h
      · -- This one was whole with a bracket in front, which went to the introducer.
        intro inside
        apply whole
        exact inside.trans (List.suffix_cons '[' segment).isInfix
      · exact ih (List.mem_cons_of_mem _ h)
    · rw [extendSegments_plain opens] at h
      rcases List.mem_cons.mp h with rfl | h
      · intro inside
        rcases List.infix_cons_iff.mp inside with inside | inside
        · exact opens inside
        · exact whole inside
      · exact ih (List.mem_cons_of_mem _ h)

theorem segments_of_no_introducer {text : List Char} (h : ¬introducer<:+:text) :
    segments text=[text] := by
  obtain ⟨first,later,hs⟩ := List.exists_cons_of_ne_nil (segments_ne_nil text)
  have joined := intercalate_segments text
  rw [hs,Text.intercalate_cons] at joined
  cases later with
  | nil =>
    have same : first=text := by simpa using joined
    rw [hs,same]
  | cons second later =>
    exfalso
    apply h
    rw [← joined,List.flatMap_cons,List.append_assoc]
    exact List.infix_append' first introducer _

/-- Stretches without an introducer are found again when introducers stand between them. -/
theorem segments_intercalate {parts : List (List Char)} (nonempty : parts≠[])
    (h : ∀ part∈parts,¬introducer<:+:part) :
    segments (introducer.intercalate parts)=parts := by
  induction parts with
  | nil => exact absurd rfl nonempty
  | cons first later ih =>
    have own : segments first=[first] := segments_of_no_introducer (h first List.mem_cons_self)
    cases later with
    | nil => simpa using own
    | cons second later =>
      have others : ∀ part∈second :: later,¬introducer<:+:part := by
        intro part member
        exact h part (List.mem_cons_of_mem _ member)
      have rest := ih (List.cons_ne_nil _ _) others
      rw [List.intercalate_cons_cons,List.append_assoc,segments_append_introducer,own,rest]
      rfl

/-- An introducer over the end of one text and the start of another. -/
def Halved (before after : List Char) : Prop :=
  before.getLast?=some escape ∧ after.head?=some '['

theorem not_introducer_infix_append {before after : List Char} (hb : ¬introducer<:+:before)
    (ha : ¬introducer<:+:after) (whole : ¬Halved before after) :
    ¬introducer<:+:before++after := by
  intro inside
  rcases List.infix_append_iff_ne_nil.mp inside with inside | inside | straddling
  · exact hb inside
  · exact ha inside
  · obtain ⟨left,right,hl,hr,cut,ends,starts⟩ := straddling
    obtain ⟨c,left,rfl⟩ := List.exists_cons_of_ne_nil hl
    obtain ⟨d,right,rfl⟩ := List.exists_cons_of_ne_nil hr
    -- Of two characters one stands on either side.
    have sides : left=[] ∧ right=[] := by
      have lengths := congrArg List.length cut
      simp only [introducer,List.length_append,List.length_cons,List.length_nil] at lengths
      constructor <;> apply List.eq_nil_of_length_eq_zero <;> omega
    obtain ⟨rfl,rfl⟩ := sides
    simp only [introducer,List.cons_append,List.nil_append,List.cons.injEq,and_true] at cut
    obtain ⟨rfl,rfl⟩ := cut
    apply whole
    exact ⟨List.singleton_suffix_iff_getLast?_eq_some.mp ends,
      List.singleton_prefix_iff_head?_eq_some.mp starts⟩

/-- Where no introducer is halved, the last segment of one text runs on into the first of
the other. -/
theorem segments_append {before after : List Char} (whole : ¬Halved before after)
    {init later : List (List Char)} {last first : List Char}
    (hb : segments before=init++[last]) (ha : segments after=first :: later) :
    segments (before++after)=init++(last++first) :: later := by
  have joined_before := intercalate_segments before
  have joined_after := intercalate_segments after
  rw [hb,Text.intercalate_append_cons,List.flatMap_nil,List.append_nil] at joined_before
  rw [ha,Text.intercalate_cons] at joined_after
  have joined : before++after=introducer.intercalate (init++(last++first) :: later) := by
    rw [Text.intercalate_append_cons,← joined_before,← joined_after]
    simp
  have apart : ¬Halved last first := by
    intro halved
    obtain ⟨ends,starts⟩ := halved
    apply whole
    constructor
    · rw [← joined_before,List.getLast?_append,ends]
      rfl
    · rw [← joined_after,List.head?_append,starts]
      rfl
  have parts_before : ∀ part∈init++[last],¬introducer<:+:part := by
    intro part member
    rw [← hb] at member
    exact not_introducer_infix_segment member
  have parts_after : ∀ part∈first :: later,¬introducer<:+:part := by
    intro part member
    rw [← ha] at member
    exact not_introducer_infix_segment member
  rw [joined]
  apply segments_intercalate (by simp)
  intro part member
  rcases List.mem_append.mp member with member | member
  · exact parts_before part (List.mem_append_left _ member)
  rcases List.mem_cons.mp member with rfl | member
  · have inner := parts_before last (by simp)
    have outer := parts_after first List.mem_cons_self
    exact not_introducer_infix_append inner outer apart
  · exact parts_after part (List.mem_cons_of_mem _ member)

section

variable {front : List Char} (h : terminator∉front)

include h

theorem forall_ne_terminator : ∀ c∈front,(c != terminator)=true := by
  intro c member
  have other : c≠terminator := fun same => h (same ▸ member)
  simpa using other

theorem splitCodes?_of_not_mem : splitCodes? front=none := by
  have all : (front++[]).dropWhile (fun c => c != terminator)=[] :=
    List.dropWhile_append_of_pos (forall_ne_terminator h)
  rw [List.append_nil] at all
  rw [splitCodes?,all]

theorem splitCodes?_append (rest : List Char) :
    splitCodes? (front++terminator :: rest)=some (front,rest) := by
  have others := forall_ne_terminator h
  have after : (front++terminator :: rest).dropWhile (fun c => c != terminator)=
      terminator :: rest := by
    rw [List.dropWhile_append_of_pos others]
    simp
  have before : (front++terminator :: rest).takeWhile (fun c => c != terminator)=front := by
    rw [List.takeWhile_append_of_pos others]
    simp
  rw [splitCodes?,after,before]

end

/-- Text behind a closed code list is shown, however much there is of it. -/
theorem splitCodes?_append_of_mem {segment : List Char} (closes : terminator∈segment)
    (more : List Char) : ∃ codes shown,splitCodes? segment=some (codes,shown) ∧
      splitCodes? (segment++more)=some (codes,shown++more) := by
  obtain ⟨codes,shown,rfl,first⟩ := List.eq_append_cons_of_mem closes
  refine ⟨codes,shown,splitCodes?_append first shown,?_⟩
  rw [List.append_assoc]
  exact splitCodes?_append first (shown++more)

/-- The style that segments leave behind them. -/
def styleAfter (current : Style) (segments : List (List Char)) : Style :=
  segments.foldl (fun style segment =>
    match splitCodes? segment with
    | none => style
    | some (codes,_) => ofKey (canonicalKey codes)) current

theorem scanSegments_append (t : Table) (current : Style) (before after : List (List Char)) :
    scanSegments t current (before++after)=
      let front := scanSegments t current before
      let back := scanSegments front.2 (styleAfter current before) after
      (front.1++back.1,back.2) := by
  induction before generalizing t current with
  | nil => simp [scanSegments,styleAfter]
  | cons segment before ih =>
    rw [List.cons_append,scanSegments,scanSegments,styleAfter,List.foldl_cons]
    cases splitCodes? segment with
    | none => simp [ih,styleAfter]
    | some split => simp [ih,styleAfter,t.resolve_style]

end FleetConsole.Style
