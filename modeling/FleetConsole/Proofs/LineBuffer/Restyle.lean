import FleetConsole.LineBuffer

namespace FleetConsole

variable {σ τ : Type}

def Run.restyle (f : σ → τ) (run : Run σ) : Run τ := ⟨f run.style,run.text⟩

def Line.restyle (f : σ → τ) (line : Line σ) : Line τ :=
  ⟨line.seq,line.lastFirst.map (Run.restyle f),line.terminated⟩

namespace LineBuffer

def mapLines (f : Line σ → Line τ) (b : LineBuffer σ) : LineBuffer τ :=
  ⟨b.newestFirst.map f,b.maxLines,b.nextSeq⟩

/-- What a line is replaced by must be open when the line is, and new when the line is. -/
theorem mapLines_onOpenLine {f : Line σ → Line τ}
    (ended : ∀ line,(f line).terminated=line.terminated)
    (fresh : ∀ seq,f ⟨seq,[],false⟩=⟨seq,[],false⟩)
    {change : Line σ → Line σ} {change' : Line τ → Line τ}
    (h : ∀ line,f (change line)=change' (f line)) (b : LineBuffer σ) :
    (b.onOpenLine change).mapLines f=(b.mapLines f).onOpenLine change' := by
  obtain ⟨newestFirst,maxLines,nextSeq⟩ := b
  have opened : f (change ⟨nextSeq,[],false⟩)=change' ⟨nextSeq,[],false⟩ := by rw [h,fresh]
  cases newestFirst with
  | nil =>
    rw [onOpenLine_nil,mapLines,List.map_cons,List.map_nil,opened]
    rfl
  | cons line older =>
    cases ht : line.terminated with
    | true =>
      rw [onOpenLine_ended ht,mapLines,List.map_cons,List.map_cons,opened]
      exact (onOpenLine_ended ((ended line).trans ht) _ _ _ _).symm
    | false =>
      rw [onOpenLine_open ht,mapLines,List.map_cons,h]
      exact (onOpenLine_open ((ended line).trans ht) _ _ _ _).symm

theorem mapLines_evict (f : Line σ → Line τ) (b : LineBuffer σ) :
    b.evict.2.mapLines f=(b.mapLines f).evict.2 := by
  simp only [evict,mapLines,List.map_take]

def restyle (f : σ → τ) (b : LineBuffer σ) : LineBuffer τ :=
  ⟨b.newestFirst.map (Line.restyle f),b.maxLines,b.nextSeq⟩

theorem restyle_onOpenLine {f : σ → τ} {change : Line σ → Line σ} {change' : Line τ → Line τ}
    (h : ∀ line,(change line).restyle f=change' (line.restyle f)) (b : LineBuffer σ) :
    (b.onOpenLine change).restyle f=(b.restyle f).onOpenLine change' :=
  mapLines_onOpenLine (f := Line.restyle f) (fun _ => rfl) (fun _ => rfl) h b

theorem restyle_put (f : σ → τ) (b : LineBuffer σ) (style : σ) (content : List Char) :
    (b.put style content).restyle f=(b.restyle f).put (f style) content := by
  unfold put
  split
  · rfl
  · apply restyle_onOpenLine
    intro line
    rfl

theorem restyle_newline (f : σ → τ) (b : LineBuffer σ) :
    b.newline.restyle f=(b.restyle f).newline := by
  apply restyle_onOpenLine
  intro line
  rfl

theorem restyle_write (f : σ → τ) (b : LineBuffer σ) (run : Run σ) :
    (b.write run).restyle f=(b.restyle f).write (run.restyle f) := by
  have later (fields : List (List Char)) (b : LineBuffer σ) :
      (fields.foldl (fun b content => b.newline.put run.style content) b).restyle f=
        fields.foldl (fun b content => b.newline.put (f run.style) content) (b.restyle f) := by
    induction fields generalizing b with
    | nil => rfl
    | cons content fields ih =>
      simp only [List.foldl_cons]
      rw [ih,restyle_put,restyle_newline]
  have text : (run.restyle f).text=run.text := rfl
  unfold write
  rw [text]
  cases Text.fields '\n' run.text with
  | nil => rfl
  | cons first fields =>
    dsimp only
    rw [later,restyle_put]
    rfl

theorem restyle_writes (f : σ → τ) (b : LineBuffer σ) (runs : List (Run σ)) :
    (runs.foldl write b).restyle f=(runs.map (Run.restyle f)).foldl write (b.restyle f) := by
  induction runs generalizing b with
  | nil => rfl
  | cons run rest ih =>
    rw [List.foldl_cons,List.map_cons,List.foldl_cons,ih,restyle_write]

theorem restyle_evict (f : σ → τ) (b : LineBuffer σ) :
    b.evict.2.restyle f=(b.restyle f).evict.2 := mapLines_evict (Line.restyle f) b

theorem restyle_append (f : σ → τ) (b : LineBuffer σ) (runs : List (Run σ)) :
    (b.append runs).2.restyle f=((b.restyle f).append (runs.map (Run.restyle f))).2 := by
  unfold append
  rw [restyle_evict,restyle_writes]

theorem restyle_setMaxLines (f : σ → τ) (b : LineBuffer σ) (maxLines : Nat) :
    (b.setMaxLines maxLines).2.restyle f=((b.restyle f).setMaxLines maxLines).2 :=
  restyle_evict f { b with maxLines := max 1 maxLines }

theorem restyle_endOpenLine (f : σ → τ) (b : LineBuffer σ) :
    b.endOpenLine.2.restyle f=(b.restyle f).endOpenLine.2 := by
  obtain ⟨newestFirst,maxLines,nextSeq⟩ := b
  cases newestFirst <;> rfl

theorem hasOpenLine_restyle (f : σ → τ) (b : LineBuffer σ) :
    (b.restyle f).hasOpenLine=b.hasOpenLine := by
  obtain ⟨newestFirst,maxLines,nextSeq⟩ := b
  cases newestFirst <;> rfl

end LineBuffer

end FleetConsole
