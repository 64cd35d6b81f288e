import FleetConsole.Proofs.Style.PlainText

namespace FleetConsole.Style

/-- A stretch between introducers, parted into its code list, if it closes one, and the rest. -/
structure Passage where
  codes? : Option (List Char)
  shown : List Char

namespace Passage

def written (p : Passage) : List Char :=
  match p.codes? with
  | none => p.shown
  | some codes => codes++terminator :: p.shown

/-- A code list ends at the first terminator. Without one there is no code list. -/
def Proper (p : Passage) : Prop :=
  match p.codes? with
  | none => terminator∉p.shown
  | some codes => terminator∉codes

end Passage

theorem splitCodes?_written {p : Passage} (proper : p.Proper) :
    splitCodes? p.written=p.codes?.map (fun codes => (codes,p.shown)) := by
  obtain ⟨codes?,shown⟩ := p
  cases codes? with
  | none => exact splitCodes?_of_not_mem proper
  | some codes => exact splitCodes?_append proper shown

theorem exists_passage (segment : List Char) : ∃ p : Passage,p.Proper ∧ p.written=segment := by
  by_cases h : terminator∈segment
  · obtain ⟨codes,shown,same,first⟩ := List.eq_append_cons_of_mem h
    exact ⟨⟨some codes,shown⟩,first,same.symm⟩
  · exact ⟨⟨none,segment⟩,h,rfl⟩

theorem eq_of_written {p q : Passage} (hp : p.Proper) (hq : q.Proper)
    (same : p.written=q.written) : p=q := by
  have split := splitCodes?_written hp
  rw [same,splitCodes?_written hq] at split
  obtain ⟨codes?,shown⟩ := p
  obtain ⟨codes?',shown'⟩ := q
  cases codes? <;> cases codes?' <;> simp_all [Passage.written]

/-- A text as what stands before its first introducer and the passages behind introducers. -/
structure Reads (text first : List Char) (later : List Passage) : Prop where
  written : text=first++later.flatMap (fun p => introducer++p.written)
  first_whole : ¬introducer<:+:first
  later_whole : ∀ p∈later,¬introducer<:+:p.written
  proper : ∀ p∈later,p.Proper

theorem segments_of_reads {text first : List Char} {later : List Passage}
    (h : Reads text first later) : segments text=first :: later.map Passage.written := by
  have joined : text=introducer.intercalate (first :: later.map Passage.written) := by
    rw [Text.intercalate_cons,List.flatMap_map]
    exact h.written
  rw [joined]
  apply segments_intercalate (List.cons_ne_nil _ _)
  intro part member
  rcases List.mem_cons.mp member with rfl | member
  · exact h.first_whole
  · obtain ⟨p,hp,rfl⟩ := List.mem_map.mp member
    exact h.later_whole p hp

theorem exists_passages (parts : List (List Char)) :
    ∃ later : List Passage,(∀ p∈later,p.Proper) ∧ later.map Passage.written=parts := by
  induction parts with
  | nil => exact ⟨[],by simp,rfl⟩
  | cons part parts ih =>
    obtain ⟨p,proper,same⟩ := exists_passage part
    obtain ⟨later,others,rest⟩ := ih
    exact ⟨p :: later,List.forall_mem_cons.mpr ⟨proper,others⟩,by simp [same,rest]⟩

theorem exists_reads (text : List Char) : ∃ first later,Reads text first later := by
  obtain ⟨first,parts,hs⟩ := List.exists_cons_of_ne_nil (segments_ne_nil text)
  obtain ⟨later,proper,rfl⟩ := exists_passages parts
  have joined := intercalate_segments text
  rw [hs,Text.intercalate_cons,List.flatMap_map] at joined
  have whole : ∀ part∈first :: later.map Passage.written,¬introducer<:+:part := by
    intro part member
    rw [← hs] at member
    exact not_introducer_infix_segment member
  refine ⟨first,later,joined.symm,whole first List.mem_cons_self,?_,proper⟩
  intro p member
  exact whole p.written (List.mem_cons_of_mem _ (List.mem_map_of_mem member))

theorem map_written_inj {a b : List Passage} (ha : ∀ p∈a,p.Proper) (hb : ∀ p∈b,p.Proper)
    (same : a.map Passage.written=b.map Passage.written) : a=b := by
  induction a generalizing b with
  | nil => simpa using same
  | cons p a ih =>
    cases b with
    | nil => simp at same
    | cons q b =>
      rw [List.map_cons,List.map_cons,List.cons.injEq] at same
      obtain ⟨pa,oa⟩ := List.forall_mem_cons.mp ha
      obtain ⟨pb,ob⟩ := List.forall_mem_cons.mp hb
      rw [eq_of_written pa pb same.1,ih oa ob same.2]

theorem reads_unique {text first first' : List Char} {later later' : List Passage}
    (h : Reads text first later) (h' : Reads text first' later') :
    first'=first ∧ later'=later := by
  have same := (segments_of_reads h').symm.trans (segments_of_reads h)
  rw [List.cons.injEq] at same
  exact ⟨same.1,map_written_inj h'.proper h.proper same.2⟩

/-- The key of the last code list in some passages; without any, that of the normal style. -/
def keyAfter (passages : List Passage) : List Char :=
  (passages.filterMap Passage.codes?).getLast?.elim normalKey canonicalKey

/-- What some passages show, each in the style of the last code list up to it, but for those that
show nothing. -/
def styledAfter (before passages : List Passage) : List (Run Style) :=
  (passages.mapIdx (fun i p =>
    (⟨ofKey (keyAfter (before++passages.take (i+1))),p.shown⟩ : Run Style))).filter
    (fun run => !run.text.isEmpty)

theorem styledAfter_cons (before : List Passage) (p : Passage) (later : List Passage) :
    styledAfter before (p :: later)=
      runOf (ofKey (keyAfter (before++[p]))) p.shown++styledAfter (before++[p]) later := by
  unfold styledAfter runOf
  rw [List.mapIdx_cons]
  simp only [List.take_succ_cons,List.take_zero,List.append_assoc,List.singleton_append]
  by_cases empty : p.shown=[] <;> simp [empty]

theorem keyAfter_concat_none (passages : List Passage) (shown : List Char) :
    keyAfter (passages++[⟨none,shown⟩])=keyAfter passages := by
  simp [keyAfter]

theorem keyAfter_concat_some (passages : List Passage) (codes shown : List Char) :
    keyAfter (passages++[⟨some codes,shown⟩])=canonicalKey codes := by
  simp [keyAfter]

/-- Behind passages read already, the scan goes on in the style of their last code list. -/
theorem scanSegments_written (t : Table) (before : List Passage) {later : List Passage}
    (proper : ∀ p∈later,p.Proper) :
    (scanSegments t (ofKey (keyAfter before)) (later.map Passage.written)).1=
      styledAfter before later := by
  induction later generalizing t before with
  | nil => rfl
  | cons p later ih =>
    obtain ⟨own,others⟩ := List.forall_mem_cons.mp proper
    have rest (t : Table) := ih t (before++[p]) others
    rw [styledAfter_cons,List.map_cons,scanSegments,splitCodes?_written own]
    obtain ⟨codes?,shown⟩ := p
    cases codes? with
    | none =>
      rw [keyAfter_concat_none] at rest ⊢
      simp [Passage.written,rest]
    | some codes =>
      rw [keyAfter_concat_some] at rest ⊢
      simp [Table.resolve_style,rest]

theorem scan_eq_styledAfter (t : Table) {text first : List Char} {later : List Passage}
    (h : Reads text first later) : (scan t text).1=styledAfter [] (⟨none,first⟩ :: later) := by
  have behind := scanSegments_written t [⟨none,first⟩] h.proper
  have start : ofKey (keyAfter [⟨none,first⟩])=normal := ofKey_normalKey
  rw [start] at behind
  rw [scan,segments_of_reads h,styledAfter_cons,List.nil_append,start,← behind]

theorem plainText_styledAfter (before passages : List Passage) :
    Run.plainText (styledAfter before passages)=passages.flatMap Passage.shown := by
  induction passages generalizing before with
  | nil => rfl
  | cons p later ih =>
    rw [styledAfter_cons,Run.plainText_append,plainText_runOf,ih,List.flatMap_cons]

theorem text_ne_nil_of_mem_scan {t : Table} {text : List Char} {run : Run Style}
    (h : run∈(scan t text).1) : run.text≠[] := by
  obtain ⟨first,later,reads⟩ := exists_reads text
  rw [scan_eq_styledAfter t reads,styledAfter,List.mem_filter] at h
  simpa using h.2

theorem scan_of_no_introducer (t : Table) {text : List Char} (h : ¬introducer<:+:text) :
    (scan t text).1=if text=[] then [] else [⟨normal,text⟩] := by
  simp [scan,segments_of_no_introducer h,scanSegments,runOf]

/-- A text has one reading, and a scan gives it: in order, what each passage shows, in the style of
the last code list up to there. Introducers and code lists are left out, and nothing else is. -/
theorem scan_shows_reading (t : Table) (text : List Char) :
    ∃ first later,Reads text first later ∧
      (∀ first' later',Reads text first' later' → first'=first ∧ later'=later) ∧
      (let passages := ⟨none,first⟩ :: later
      (scan t text).1=(passages.mapIdx (fun i p =>
        (⟨ofKey (keyAfter (passages.take (i+1))),p.shown⟩ : Run Style))).filter
        (fun run => !run.text.isEmpty)) ∧
      Run.plainText (scan t text).1=first++later.flatMap Passage.shown ∧
      (∀ run∈(scan t text).1,run.text≠[]) ∧
      (¬introducer<:+:text → (scan t text).1=if text=[] then [] else [⟨normal,text⟩]) := by
  obtain ⟨first,later,reads⟩ := exists_reads text
  have shown := scan_eq_styledAfter t reads
  refine ⟨first,later,reads,?_,shown,?_,?_,scan_of_no_introducer t⟩
  · intro first' later' other
    exact reads_unique reads other
  · rw [shown,plainText_styledAfter]
    rfl
  · intro run member
    exact text_ne_nil_of_mem_scan member

/-- The last code list is not closed, so its text is shown and stays red. -/
example : (runs "a\x1b[31mb\x1b[4;c".toList).map (fun run => (run.style.key,run.text))=
    [("0".toList,"a".toList),("31".toList,"b".toList),("31".toList,"4;c".toList)] := by
  decide +kernel

/-- The normal style has its entry from the start. -/
theorem Table.resolve_nil (t : Table) : (t.resolve []).2=t := by
  unfold Table.resolve
  dsimp only
  split
  next => rfl
  next none =>
    exfalso
    have absent := List.findIdx?_eq_none_iff.mp (Table.findIdx?_none_of_find?_none none)
    have present : normal∈t.styles := List.mem_of_mem_head? t.head_normal
    have other := absent normal present
    simp [normal,canonicalKey] at other

theorem scanSegments_reset (t : Table) (current : Style) (before : List (List Char))
    (first : List Char) (after : List (List Char)) :
    scanSegments t current (before++(terminator :: first) :: after)=
      let front := scanSegments t current before
      let back := scanSegments front.2 normal after
      (front.1++(runOf normal first++back.1),back.2) := by
  have empty : splitCodes? (terminator :: first)=some ([],first) :=
    splitCodes?_append List.not_mem_nil first
  have style (t : Table) : (t.resolve []).1.style=normal :=
    (t.resolve_style []).trans ofKey_normalKey
  rw [scanSegments_append]
  simp [scanSegments,empty,style,Table.resolve_nil]

/-- A reset parts a text like the end of a message, whatever stands on either side of it. -/
theorem scan_append_reset (t : Table) (a b : List Char) :
    scan t (a++(introducer++terminator :: b))=
      ((scan t a).1++(scan (scan t a).2 b).1,(scan (scan t a).2 b).2) := by
  obtain ⟨first,before,ha⟩ := List.exists_cons_of_ne_nil (segments_ne_nil a)
  obtain ⟨second,after,hb⟩ := List.exists_cons_of_ne_nil (segments_ne_nil b)
  have reset : segments (terminator :: b)=(terminator :: second) :: after := by
    rw [segments_cons,hb]
    exact extendSegments_of_ne (by decide) second after
  have parted : segments (a++(introducer++terminator :: b))=
      first :: (before++(terminator :: second) :: after) := by
    rw [segments_append_introducer,ha,reset]
    rfl
  simp [scan,parted,ha,hb,scanSegments_reset]

end FleetConsole.Style
