import FleetConsole.Proofs.Style.Segments

namespace FleetConsole

namespace Run

variable {σ : Type}

@[simp] theorem plainText_nil : plainText ([] : List (Run σ))=[] := rfl

@[simp] theorem plainText_cons (run : Run σ) (rest : List (Run σ)) :
    plainText (run :: rest)=run.text++plainText rest := rfl

@[simp] theorem plainText_append (a b : List (Run σ)) :
    plainText (a++b)=plainText a++plainText b := by
  simp [plainText]

end Run

namespace Style

/-- The runs of a text. The table they are read with makes no difference. -/
def runs (text : List Char) : List (Run Style) := (scan Table.initial text).1

def plain (text : List Char) : List Char := Run.plainText (runs text)

theorem scan_fst (t : Table) (text : List Char) : (scan t text).1=runs text :=
  scan_runs t Table.initial text

@[simp] theorem plainText_runOf (style : Style) (text : List Char) :
    Run.plainText (runOf style text)=text := by
  rw [runOf]
  split <;> simp_all

theorem segments_of_no_escape {text : List Char} (h : escape∉text) : segments text=[text] := by
  apply segments_of_no_introducer
  intro inside
  apply h
  exact inside.subset List.mem_cons_self

theorem runs_of_no_escape {text : List Char} (h : escape∉text) :
    runs text=runOf normal text := by
  simp [runs,scan,segments_of_no_escape h,scanSegments]

theorem plain_of_no_escape {text : List Char} (h : escape∉text) : plain text=text := by
  rw [plain,runs_of_no_escape h,plainText_runOf]

/-- No introducer reaches over the end of a line. -/
theorem segments_newline (text : List Char) :
    ∃ init last, segments (text++['\n'])=init++[last++['\n']] := by
  obtain ⟨init,last,hs⟩ := exists_last_segment text
  have whole : ¬Halved text ['\n'] := by
    intro halved
    obtain ⟨_,bracket⟩ := halved
    simp at bracket
  exact ⟨init,last,segments_append whole hs rfl⟩

/-- What closes a code list is not the end of a line. -/
theorem splitCodes?_newline (last : List Char) :
    splitCodes? (last++['\n'])=none ∨
      ∃ codes body, splitCodes? (last++['\n'])=some (codes,body++['\n']) := by
  by_cases closes : terminator∈last
  · right
    obtain ⟨codes,body,_,further⟩ := splitCodes?_append_of_mem closes ['\n']
    exact ⟨codes,body,further⟩
  · left
    have open_line : terminator∉['\n'] := by decide
    apply splitCodes?_of_not_mem
    simp [closes,open_line]

theorem plainText_scanSegments_newline (t : Table) (current : Style) (init : List (List Char))
    (last : List Char) :
    (Run.plainText (scanSegments t current (init++[last++['\n']])).1).getLast?=some '\n' := by
  rw [scanSegments_append]
  rcases splitCodes?_newline last with h | ⟨codes,body,h⟩ <;>
    simp [scanSegments,h,List.getLast?_append]

/-- Whatever escapes a line holds, what is shown of it still ends it. -/
theorem getLast?_plain (text : List Char) : (plain (text++['\n'])).getLast?=some '\n' := by
  obtain ⟨init,last,h⟩ := segments_newline text
  unfold plain runs scan
  rw [h]
  cases init with
  | nil => simp [scanSegments]
  | cons first init =>
    simp [List.getLast?_append,plainText_scanSegments_newline]

end Style

end FleetConsole
