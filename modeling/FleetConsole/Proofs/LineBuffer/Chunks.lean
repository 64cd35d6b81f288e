import FleetConsole.Proofs.LineBuffer.Archive
import FleetConsole.Proofs.LineBuffer.Complete
import FleetConsole.Proofs.LineBuffer.Restyle
import FleetConsole.Proofs.LineBuffer.Sliding

namespace FleetConsole

variable {σ : Type}

namespace LineBuffer

variable {b : LineBuffer σ}

theorem one_le_maxLines (maxLines : Nat) (changes : List (Change σ)) :
    1 ≤ ((new maxLines : LineBuffer σ).changeAll changes).maxLines := by
  have shown : ((Archive.new maxLines : Archive σ).changeAll changes).shown=
      (new maxLines : LineBuffer σ).changeAll changes := Archive.shown_changeAll _ changes
  rw [← shown]
  exact (Archive.sound_changeAll maxLines changes).limit

theorem hasOpenLine_evict (limit : 1 ≤ b.maxLines) : b.evict.2.hasOpenLine=b.hasOpenLine := by
  rw [hasOpenLine_eq,hasOpenLine_eq,evict,List.head?_take,if_neg (Nat.ne_of_gt limit)]

/-- The newest line is never evicted, so a change of it goes where it would have gone. -/
theorem evict_onOpenLine (limit : 1 ≤ b.maxLines) (edit : Line σ → Line σ) :
    (b.evict.2.onOpenLine edit).evict.2=(b.onOpenLine edit).evict.2 := by
  rw [onOpenLine_eq,onOpenLine_eq,hasOpenLine_evict limit]
  obtain ⟨newestFirst,maxLines,nextSeq⟩ := b
  obtain ⟨n,rfl⟩ : ∃ n,maxLines=n+1 := Nat.exists_eq_add_of_le' limit
  split
  · cases newestFirst <;> simp [evict,List.take_take]
  · simp [evict,List.take_take]

theorem evict_foldl (limit : 1 ≤ b.maxLines) (edits : List (Line σ → Line σ)) :
    (edits.foldl onOpenLine b.evict.2).evict.2=(edits.foldl onOpenLine b).evict.2 := by
  induction edits generalizing b with
  | nil => simp [evict,List.take_take]
  | cons edit edits ih =>
    have before : 1 ≤ (b.evict.2.onOpenLine edit).maxLines := by
      rw [maxLines_onOpenLine]
      exact limit
    have after : 1 ≤ (b.onOpenLine edit).maxLines := by
      rw [maxLines_onOpenLine]
      exact limit
    rw [List.foldl_cons,List.foldl_cons,← ih before,evict_onOpenLine limit,ih after]

theorem append_append (limit : 1 ≤ b.maxLines) (xs ys : List (Run σ)) :
    (b.append (xs++ys)).2=((b.append xs).2.append ys).2 := by
  have written : 1 ≤ (xs.foldl write b).maxLines := by
    rw [maxLines_writes]
    exact limit
  rw [append,append,append,List.foldl_append,writes_eq_foldl _ ys,writes_eq_foldl _ ys]
  exact (evict_foldl written _).symm

theorem evicted_add_size (b : LineBuffer σ) (runs : List (Run σ)) :
    (b.append runs).1+(b.append runs).2.size+b.nextSeq=b.size+(b.append runs).2.nextSeq := by
  have opened := size_writes b runs
  have kept := size_evict (runs.foldl write b)
  have evicted : (b.append runs).1=(runs.foldl write b).size-(runs.foldl write b).maxLines := rfl
  have same : (b.append runs).2.nextSeq=(runs.foldl write b).nextSeq := rfl
  rw [append] at evicted same ⊢
  omega

theorem evicted_append (limit : 1 ≤ b.maxLines) (xs ys : List (Run σ)) :
    (b.append (xs++ys)).1=(b.append xs).1+((b.append xs).2.append ys).1 := by
  have whole := b.evicted_add_size (xs++ys)
  have first := b.evicted_add_size xs
  have second := (b.append xs).2.evicted_add_size ys
  rw [append_append limit] at whole
  omega

end LineBuffer

/-- The characters of a run, each with its style. -/
def Run.cells (run : Run σ) : List (σ × Char) := run.text.map (fun c => (run.style,c))

theorem Run.cells_append (style : σ) (u v : List Char) :
    Run.cells ⟨style,u++v⟩=Run.cells ⟨style,u⟩++Run.cells ⟨style,v⟩ := List.map_append

def Run.letter (cell : σ × Char) : Run σ := ⟨cell.1,[cell.2]⟩

namespace Line

def cells (line : Line σ) : List (σ × Char) := line.runs.flatMap Run.cells

/-- The line in runs of one character each. -/
def spell (line : Line σ) : Line σ :=
  ⟨line.seq,(line.cells.map Run.letter).reverse,line.terminated⟩

theorem cells_push (line : Line σ) (run : Run σ) : (line.push run).cells=line.cells++run.cells := by
  simp [cells]

theorem cells_spell (line : Line σ) : line.spell.cells=line.cells := by
  have single (cell : σ × Char) : (Run.letter cell).cells=[cell] := rfl
  simp [cells,spell,runs,List.flatMap_map,single]

theorem text_eq_cells (line : Line σ) : line.text=line.cells.map Prod.snd := by
  have each (run : Run σ) : run.cells.map Prod.snd=run.text := by simp [Run.cells,Function.comp_def]
  rw [text,Run.plainText,cells,List.map_flatMap]
  simp only [each]

theorem text_spell (line : Line σ) : line.spell.text=line.text := by
  rw [text_eq_cells,text_eq_cells,cells_spell]

/-- Adds characters to a line, each in a run of its own. -/
def pushLetters (line : Line σ) (cells : List (σ × Char)) : Line σ :=
  cells.foldl (fun line cell => line.push (Run.letter cell)) line

theorem pushLetters_eq (line : Line σ) (cells : List (σ × Char)) :
    line.pushLetters cells=
      { line with lastFirst := (cells.map Run.letter).reverse++line.lastFirst } := by
  induction cells generalizing line with
  | nil => rfl
  | cons cell cells ih =>
    rw [List.map_cons,List.reverse_cons,List.append_assoc]
    exact ih (line.push (Run.letter cell))

theorem spell_push (line : Line σ) (run : Run σ) :
    (line.push run).spell=line.spell.pushLetters run.cells := by
  rw [pushLetters_eq,spell,cells_push,List.map_append,List.reverse_append]
  rfl

end Line

namespace LineBuffer

def spell (b : LineBuffer σ) : LineBuffer σ := b.mapLines Line.spell

/-- Two changes of a line that is still open after the first. -/
theorem onOpenLine_onOpenLine (b : LineBuffer σ) (edit edit' : Line σ → Line σ)
    (still : ∀ line,(edit line).terminated=line.terminated) :
    (b.onOpenLine edit).onOpenLine edit'=b.onOpenLine (fun line => edit' (edit line)) := by
  obtain ⟨newestFirst,maxLines,nextSeq⟩ := b
  have fresh : (edit ⟨nextSeq,[],false⟩).terminated=false := still _
  cases newestFirst with
  | nil => rw [onOpenLine_nil,onOpenLine_open fresh,onOpenLine_nil]
  | cons line older =>
    cases ended : line.terminated with
    | true => rw [onOpenLine_ended ended,onOpenLine_open fresh,onOpenLine_ended ended]
    | false =>
      rw [onOpenLine_open ended,onOpenLine_open ((still line).trans ended),onOpenLine_open ended]

theorem write_newline (b : LineBuffer σ) (style : σ) :
    b.write (Run.letter (style,'\n'))=b.newline := by
  simp [write,Run.letter,Text.fields_cons,Text.extendFields,put]

theorem write_letter (b : LineBuffer σ) {cell : σ × Char} (h : cell.2 ≠ '\n') :
    b.write (Run.letter cell)=b.onOpenLine (fun line => line.push (Run.letter cell)) := by
  have whole : Text.fields '\n' (Run.letter cell).text=[[cell.2]] :=
    Text.fields_of_not_mem (by simpa [Run.letter] using Ne.symm h)
  rw [write,whole]
  rfl

theorem writes_letters (b : LineBuffer σ) {cells : List (σ × Char)} (nonempty : cells≠[])
    (h : ∀ cell∈cells,cell.2 ≠ '\n') :
    (cells.map Run.letter).foldl write b=b.onOpenLine (fun line => line.pushLetters cells) := by
  induction cells generalizing b with
  | nil => exact absurd rfl nonempty
  | cons cell cells ih =>
    obtain ⟨first,others⟩ := List.forall_mem_cons.mp h
    rw [List.map_cons,List.foldl_cons,write_letter b first]
    by_cases last : cells=[]
    · rw [last]
      rfl
    · rw [ih _ last others]
      exact b.onOpenLine_onOpenLine (fun line => line.push (Run.letter cell)) _ (fun _ => rfl)

theorem spell_onOpenLine (b : LineBuffer σ) (edit edit' : Line σ → Line σ)
    (h : ∀ line,(edit line).spell=edit' line.spell) :
    (b.onOpenLine edit).spell=b.spell.onOpenLine edit' :=
  mapLines_onOpenLine (f := Line.spell) (fun _ => rfl) (fun _ => rfl) h b

theorem spell_newline (b : LineBuffer σ) (style : σ) :
    b.newline.spell=b.spell.write (Run.letter (style,'\n')) := by
  rw [write_newline]
  exact b.spell_onOpenLine Line.finish Line.finish (fun _ => rfl)

theorem spell_put (b : LineBuffer σ) (style : σ) {content : List Char} (nonempty : content≠[])
    (clean : '\n'∉content) :
    (b.put style content).spell=
      ((Run.cells ⟨style,content⟩).map Run.letter).foldl write b.spell := by
  have letters : Run.cells ⟨style,content⟩≠[] := by simpa [Run.cells] using nonempty
  have proper : ∀ cell∈Run.cells ⟨style,content⟩,cell.2 ≠ '\n' := by
    intro cell hc ends
    obtain ⟨c,member,rfl⟩ := List.mem_map.mp hc
    exact clean (ends ▸ member)
  rw [put,if_neg nonempty,writes_letters _ letters proper]
  exact b.spell_onOpenLine _ _ (fun line => line.spell_push _)

/-- A run is written like its characters one by one. -/
theorem spell_write (b : LineBuffer σ) (run : Run σ) :
    (b.write run).spell=(run.cells.map Run.letter).foldl write b.spell := by
  have h : ([run].foldl write b).spell=
      ((Run.cells ⟨run.style,[]++Run.plainText [run]⟩).map Run.letter).foldl write b.spell := by
    refine writes_induction (motive := fun t b' =>
      b'.spell=((Run.cells ⟨run.style,t⟩).map Run.letter).foldl write b.spell) ?_ ?_ rfl
    · intro t b' run' content member nonempty clean ih
      obtain rfl := List.mem_singleton.mp member
      rw [spell_put b' _ nonempty clean,ih,Run.cells_append,List.map_append,List.foldl_append]
    · intro t b' ih
      rw [spell_newline b' run.style,ih,Run.cells_append,List.map_append,List.foldl_append]
      rfl
  rwa [List.nil_append,Run.plainText,List.flatMap_singleton] at h

theorem spell_writes (b : LineBuffer σ) (runs : List (Run σ)) :
    (runs.foldl write b).spell=((runs.flatMap Run.cells).map Run.letter).foldl write b.spell := by
  induction runs generalizing b with
  | nil => rfl
  | cons run rest ih =>
    rw [List.foldl_cons,ih,spell_write,List.flatMap_cons,List.map_append,List.foldl_append]

theorem size_spell (b : LineBuffer σ) : b.spell.size=b.size := List.length_map ..

/-- Of the runs that are appended only the characters matter. -/
theorem spell_append (b : LineBuffer σ) (runs : List (Run σ)) :
    ((b.append runs).1,(b.append runs).2.spell)=
      b.spell.append ((runs.flatMap Run.cells).map Run.letter) := by
  rw [append,append,← spell_writes]
  refine Prod.ext ?_ (mapLines_evict Line.spell _)
  exact congrArg (·-(runs.foldl write b).maxLines) (size_spell _).symm

theorem text_spell (b : LineBuffer σ) : b.spell.text=b.text := by
  have each : (fun line : Line σ => lineText line.spell)=lineText := by
    funext line
    rw [lineText,lineText,Line.text_spell]
    rfl
  rw [text,text,lines,lines,spell,mapLines,← List.map_reverse,List.flatMap_map,each]

/-- Two appends in a row leave and evict what one append of all the runs does, and a run that is
cut in two changes no line in its place, characters and styles. -/
theorem appending_ignores_chunks (maxLines : Nat) (changes : List (Change σ)) :
    let b := (new maxLines : LineBuffer σ).changeAll changes
    (∀ xs ys,
      (b.append (xs++ys)).2=((b.append xs).2.append ys).2 ∧
      (b.append (xs++ys)).1=(b.append xs).1+((b.append xs).2.append ys).1) ∧
    ∀ before style u v after,
      let whole := b.append (before++⟨style,u++v⟩ :: after)
      let cut := b.append (before++⟨style,u⟩ :: ⟨style,v⟩ :: after)
      cut.2.lines.map (fun line => (line.seq,line.text,line.terminated,line.cells))=
        whole.2.lines.map (fun line => (line.seq,line.text,line.terminated,line.cells)) ∧
      cut.1=whole.1 ∧ cut.2.text=whole.2.text ∧ cut.2.lastSeq=whole.2.lastSeq := by
  intro b
  have limit : 1 ≤ b.maxLines := one_le_maxLines maxLines changes
  refine ⟨fun xs ys => ⟨append_append limit xs ys,evicted_append limit xs ys⟩,?_⟩
  intro before style u v after whole cut
  have same : (cut.1,cut.2.spell)=(whole.1,whole.2.spell) := by
    rw [spell_append,spell_append]
    simp [Run.cells_append]
  obtain ⟨evicted,spelled⟩ := Prod.mk.inj same
  have looks (b : LineBuffer σ) :
      b.spell.lines.map (fun line => (line.seq,line.text,line.terminated,line.cells))=
        b.lines.map (fun line => (line.seq,line.text,line.terminated,line.cells)) := by
    rw [lines,lines,spell,mapLines,← List.map_reverse,List.map_map]
    apply List.map_congr_left
    intro line _
    rw [Function.comp_apply,Line.text_spell,Line.cells_spell]
    rfl
  refine ⟨?_,evicted,?_,?_⟩
  · rw [← looks,spelled,looks]
  · rw [← text_spell,spelled,text_spell]
  · have numbers : cut.2.spell.lastSeq=whole.2.spell.lastSeq := congrArg lastSeq spelled
    exact numbers

end LineBuffer

end FleetConsole
