import FleetConsole.LineBuffer
import FleetConsole.Proofs.Style.PlainText
import FleetConsole.Proofs.Text.Fields

namespace FleetConsole

namespace LineBuffer

variable {σ : Type}

section Induction

variable {motive : List Char → LineBuffer σ → Prop}

private theorem foldl_pieces_induction {style : σ} {later : List (List Char)}
    (clean : ∀ content∈later,'\n'∉content)
    (put : ∀ t b content,content≠[] → '\n'∉content → motive t b →
      motive (t++content) (b.put style content))
    (newline : ∀ t b,motive t b → motive (t++['\n']) b.newline)
    {t : List Char} {b : LineBuffer σ} (start : motive t b) :
    motive (t++later.flatMap (fun field => '\n' :: field))
      (later.foldl (fun b content => b.newline.put style content) b) := by
  induction later generalizing t b with
  | nil => simpa using start
  | cons content later ih =>
    have hn := newline t b start
    have hp : motive (t++['\n']++content) (b.newline.put style content) := by
      by_cases he : content=[]
      · simpa [he,LineBuffer.put] using hn
      · exact put _ _ content he (clean content (by simp)) hn
    have h := ih (fun d hd => clean d (List.mem_cons_of_mem _ hd)) hp
    simpa using h

/-- What holds of a buffer and of the text written so far, and survives every single step,
holds after whole runs. -/
theorem writes_induction {runs : List (Run σ)}
    (put : ∀ t b run content,run∈runs → content≠[] → '\n'∉content → motive t b →
      motive (t++content) (b.put run.style content))
    (newline : ∀ t b,motive t b → motive (t++['\n']) b.newline)
    {t : List Char} {b : LineBuffer σ} (start : motive t b) :
    motive (t++Run.plainText runs) (runs.foldl write b) := by
  induction runs generalizing t b with
  | nil => simpa using start
  | cons run rest ih =>
    have hw : motive (t++run.text) (b.write run) := by
      have hj := Text.joinFields_fields '\n' run.text
      have hc : ∀ field∈Text.fields '\n' run.text,'\n'∉field :=
        fun _ h => Text.not_mem_of_mem_fields h
      rw [write]
      cases hf : Text.fields '\n' run.text with
      | nil => exact absurd hf (Text.fields_ne_nil '\n' run.text)
      | cons first later =>
        rw [hf,Text.joinFields_cons] at hj
        rw [hf] at hc
        rw [← hj,← List.append_assoc]
        have hput := fun t b content => put t b run content (List.mem_cons_self ..)
        refine foldl_pieces_induction (fun d hd => hc d (List.mem_cons_of_mem _ hd)) hput
          newline ?_
        by_cases he : first=[]
        · simpa [he,LineBuffer.put] using start
        · exact hput t b first he (hc first (List.mem_cons_self ..)) start
    have h := ih (fun t b r content hr => put t b r content (List.mem_cons_of_mem _ hr)) hw
    simpa using h

end Induction

theorem text_cons (line : Line σ) (older : List (Line σ)) (maxLines nextSeq : Nat) :
    text ⟨line :: older,maxLines,nextSeq⟩=text ⟨older,maxLines,nextSeq⟩++lineText line := by
  simp [text,lines]

theorem text_onOpenLine {change : Line σ → Line σ} {added : List Char}
    (h : ∀ line : Line σ,line.terminated=false → lineText (change line)=line.text++added)
    (b : LineBuffer σ) : (b.onOpenLine change).text=b.text++added := by
  obtain ⟨newestFirst,maxLines,nextSeq⟩ := b
  have fresh : lineText (change ⟨nextSeq,[],false⟩)=added := by
    rw [h _ rfl]
    simp [Line.text,Line.runs]
  cases newestFirst with
  | nil =>
    rw [onOpenLine_nil,text_cons,fresh]
    rfl
  | cons line older =>
    cases ht : line.terminated with
    | true => rw [onOpenLine_ended ht,text_cons,fresh]; rfl
    | false =>
      have old : lineText line=line.text := by simp [lineText,ht]
      rw [onOpenLine_open ht,text_cons,text_cons,h line ht,old,List.append_assoc]

theorem text_put (b : LineBuffer σ) (style : σ) (content : List Char) :
    (b.put style content).text=b.text++content := by
  rw [put]
  split
  next h => simp [h]
  next h =>
    apply text_onOpenLine
    intro line ht
    have ht' : (line.push ⟨style,content⟩).terminated=false := ht
    simp [lineText,ht',Line.text]

theorem text_newline (b : LineBuffer σ) : b.newline.text=b.text++['\n'] := by
  apply text_onOpenLine
  intro line _
  simp [lineText,Line.text,Line.runs]

theorem text_writes (b : LineBuffer σ) (runs : List (Run σ)) :
    (runs.foldl write b).text=b.text++Run.plainText runs := by
  have h : (runs.foldl write b).text=b.text++([]++Run.plainText runs) := by
    refine writes_induction (motive := fun t b' => b'.text=b.text++t) ?_ ?_ ?_
    · intro t b' run content _ _ _ h
      rw [text_put,h,List.append_assoc]
    · intro t b' h
      rw [text_newline,h,List.append_assoc]
    · exact (List.append_nil b.text).symm
  exact h

/-- Whether a line is open after a text, which goes by the last character of the text. -/
def openAfter (before : Bool) (text : List Char) : Bool :=
  match text.getLast? with
  | none => before
  | some c => c != '\n'

@[simp] theorem openAfter_nil (before : Bool) : openAfter before []=before := rfl

theorem openAfter_newline (before : Bool) (text : List Char) :
    openAfter before (text++['\n'])=false := by
  simp [openAfter]

theorem openAfter_append (before : Bool) (a b : List Char) :
    openAfter before (a++b)=openAfter (openAfter before a) b := by
  unfold openAfter
  rw [List.getLast?_append]
  cases b.getLast? <;> simp

theorem openAfter_content (before : Bool) {content : List Char} (hne : content≠[])
    (h : '\n'∉content) : openAfter before content=true := by
  rw [openAfter,List.getLast?_eq_some_getLast hne]
  have hm := List.getLast_mem hne
  simp only [bne_iff_ne,ne_eq]
  intro e
  exact h (e ▸ hm)

theorem hasOpenLine_put (b : LineBuffer σ) (style : σ) {content : List Char} (h : content≠[]) :
    (b.put style content).hasOpenLine=true := by
  obtain ⟨newestFirst,maxLines,nextSeq⟩ := b
  rw [put,if_neg h]
  cases newestFirst with
  | nil => rfl
  | cons line older =>
    cases ht : line.terminated with
    | true => rw [onOpenLine_ended ht]; rfl
    | false =>
      rw [onOpenLine_open ht]
      simp [hasOpenLine,Line.push,ht]

theorem hasOpenLine_newline (b : LineBuffer σ) : b.newline.hasOpenLine=false := by
  obtain ⟨newestFirst,maxLines,nextSeq⟩ := b
  cases newestFirst with
  | nil => rfl
  | cons line older =>
    cases ht : line.terminated with
    | true => rw [newline,onOpenLine_ended ht]; rfl
    | false => rw [newline,onOpenLine_open ht]; rfl

theorem hasOpenLine_writes (b : LineBuffer σ) (runs : List (Run σ)) :
    (runs.foldl write b).hasOpenLine=openAfter b.hasOpenLine (Run.plainText runs) := by
  have h : (runs.foldl write b).hasOpenLine=
      openAfter b.hasOpenLine ([]++Run.plainText runs) := by
    refine writes_induction (motive := fun t b' => b'.hasOpenLine=openAfter b.hasOpenLine t)
      ?_ ?_ rfl
    · intro t b' run content _ hne hn _
      rw [hasOpenLine_put b' run.style hne,openAfter_append,openAfter_content _ hne hn]
    · intro t b' _
      rw [hasOpenLine_newline,openAfter_newline]
  exact h

theorem hasOpenLine_endOpenLine (b : LineBuffer σ) : b.endOpenLine.2.hasOpenLine=false := by
  obtain ⟨newestFirst,maxLines,nextSeq⟩ := b
  cases newestFirst <;> rfl

theorem text_endOpenLine (b : LineBuffer σ) :
    b.endOpenLine.2.text=if b.hasOpenLine then b.text++['\n'] else b.text := by
  obtain ⟨newestFirst,maxLines,nextSeq⟩ := b
  cases newestFirst with
  | nil => rfl
  | cons line older =>
    simp only [endOpenLine,hasOpenLine,text_cons]
    cases h : line.terminated <;> simp [lineText,h,Line.text,Line.runs]

/-- Evicting leaves the newest line, if it leaves any. -/
theorem hasOpenLine_of_evict {b : LineBuffer σ} (h : b.evict.2.hasOpenLine=true) :
    b.hasOpenLine=true := by
  obtain ⟨newestFirst,maxLines,nextSeq⟩ := b
  cases newestFirst with
  | nil => simp [evict,hasOpenLine] at h
  | cons line older =>
    cases maxLines with
    | zero => simp [evict,hasOpenLine] at h
    | succ n => exact h

theorem hasOpenLine_setMaxLines (b : LineBuffer σ) (maxLines : Nat) :
    (b.setMaxLines maxLines).2.hasOpenLine=b.hasOpenLine := by
  obtain ⟨newestFirst,_,nextSeq⟩ := b
  obtain ⟨n,hn⟩ : ∃ n,max 1 maxLines=n+1 := ⟨max 1 maxLines-1,by omega⟩
  rw [setMaxLines,hn]
  cases newestFirst <;> rfl

/-- Text that ends its last line leaves no line open. -/
theorem hasOpenLine_append_of_newline (b : LineBuffer σ) {runs : List (Run σ)}
    (h : (Run.plainText runs).getLast?=some '\n') : (b.append runs).2.hasOpenLine=false := by
  have written : (runs.foldl write b).hasOpenLine=false := by
    rw [hasOpenLine_writes]
    simp [openAfter,h]
  apply Bool.eq_false_iff.mpr
  intro ho
  rw [hasOpenLine_of_evict ho] at written
  cases written

theorem maxLines_onOpenLine (b : LineBuffer σ) (change : Line σ → Line σ) :
    (b.onOpenLine change).maxLines=b.maxLines := by
  obtain ⟨newestFirst,maxLines,nextSeq⟩ := b
  cases newestFirst with
  | nil => rfl
  | cons line older =>
    cases ht : line.terminated with
    | true => rw [onOpenLine_ended ht]
    | false => rw [onOpenLine_open ht]

/-- Writing changes lines only. -/
theorem maxLines_writes (b : LineBuffer σ) (runs : List (Run σ)) :
    (runs.foldl write b).maxLines=b.maxLines := by
  refine writes_induction (motive := fun _ b' => b'.maxLines=b.maxLines) (t := []) ?_ ?_ rfl
  · intro t b' run content _ _ _ h
    rw [put]
    split
    · exact h
    · rw [maxLines_onOpenLine,h]
  · intro t b' h
    rw [newline,maxLines_onOpenLine,h]

end LineBuffer

end FleetConsole
