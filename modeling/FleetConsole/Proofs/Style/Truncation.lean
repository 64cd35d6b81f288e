import FleetConsole.Proofs.Style.Reading

namespace FleetConsole.Style

/-- Nothing is cut in two: neither a code list nor an introducer. -/
structure CutsCleanly (kept rest : List Char) : Prop where
  closed : ¬introducer<:+:kept ∨
    ∃ before last,kept=before++(introducer++last) ∧ ¬introducer<:+:last ∧ terminator∈last
  whole : ¬Halved kept rest

/-- What is seen of some runs: their characters, each with the key of its style. -/
def cells (runs : List (Run Style)) : List (Char × List Char) :=
  runs.flatMap (fun run => run.text.map (fun c => (c,run.style.key)))

@[simp] theorem cells_append (a b : List (Run Style)) : cells (a++b)=cells a++cells b := by
  simp [cells]

/-- The second runs begin with the first, but for more text in the last of these. -/
def Continues (runs longer : List (Run Style)) : Prop :=
  runs<+:longer ∨ ∃ init last more later,runs=init++[last] ∧
    longer=init++⟨last.style,last.text++more⟩ :: later

theorem continues_runOf (style : Style) (text more : List Char) (later : List (Run Style)) :
    Continues (runOf style text) (runOf style (text++more)++later) := by
  by_cases empty : text=[]
  · left
    simp [runOf,empty]
  · right
    refine ⟨[],⟨style,text⟩,more,later,?_,?_⟩ <;> simp [runOf,empty]

theorem Continues.append_left {runs longer : List (Run Style)} (h : Continues runs longer)
    (front : List (Run Style)) : Continues (front++runs) (front++longer) := by
  rcases h with begins | ⟨init,last,more,later,rfl,rfl⟩
  · left
    exact (List.prefix_append_right_inj front).mpr begins
  · right
    exact ⟨front++init,last,more,later,by simp,by simp⟩

theorem Continues.cells_prefix {runs longer : List (Run Style)} (h : Continues runs longer) :
    cells runs<+:cells longer := by
  rcases h with ⟨later,rfl⟩ | ⟨init,last,more,later,rfl,rfl⟩
  · simp
  · simp [cells]

theorem last_closed {kept rest : List Char} (clean : CutsCleanly kept rest)
    {init : List (List Char)} {last : List Char} (hs : segments kept=init++[last]) :
    init=[] ∨ terminator∈last := by
  rcases clean.closed with plain | ⟨before,last',rfl,whole,closes⟩
  · left
    rw [segments_of_no_introducer plain] at hs
    have lengths := congrArg List.length hs
    simpa using lengths
  · right
    rw [segments_append_introducer,segments_of_no_introducer whole] at hs
    have same := List.append_inj_right' hs rfl
    simp_all

theorem continues_scanSegments (t : Table) (current : Style) (init : List (List Char))
    {last : List Char} (closes : terminator∈last) (more : List Char) (later : List (List Char)) :
    Continues (scanSegments t current (init++[last])).1
      (scanSegments t current (init++(last++more) :: later)).1 := by
  obtain ⟨codes,shown,alone,further⟩ := splitCodes?_append_of_mem closes more
  rw [scanSegments_append,scanSegments_append]
  apply Continues.append_left
  simp only [scanSegments,alone,further,List.append_nil]
  exact continues_runOf _ shown more _

theorem continues_scan (t t' : Table) {kept rest : List Char} (clean : CutsCleanly kept rest) :
    Continues (scan t kept).1 (scan t' (kept++rest)).1 := by
  obtain ⟨init,last,hk⟩ := exists_last_segment kept
  obtain ⟨first,later,hr⟩ := List.exists_cons_of_ne_nil (segments_ne_nil rest)
  have joined := segments_append clean.whole hk hr
  rw [scan_runs t' t]
  cases init with
  | nil =>
    simp only [scan,hk,joined,List.nil_append,scanSegments,List.append_nil]
    exact continues_runOf normal last first _
  | cons segment init =>
    have closes : terminator∈last := (last_closed clean hk).resolve_left (List.cons_ne_nil _ _)
    simp only [scan,hk,joined,List.cons_append]
    exact (continues_scanSegments t normal init closes first later).append_left _

end FleetConsole.Style
