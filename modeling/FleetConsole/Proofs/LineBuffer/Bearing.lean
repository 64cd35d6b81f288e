import FleetConsole.Proofs.LineBuffer.Writing

namespace FleetConsole

variable {σ μ : Type}

def Line.Bears (mark : σ → μ) (m : μ) (line : Line σ) : Prop :=
  ∀ run∈line.lastFirst,mark run.style=m

namespace LineBuffer

/-- Each line bears one mark, and an open line is not empty and bears the mark given. -/
structure Bears (mark : σ → μ) (m : μ) (b : LineBuffer σ) : Prop where
  lines : ∀ line∈b.newestFirst,∃ m,line.Bears mark m
  opened : ∀ line∈b.newestFirst.head?,line.terminated=false →
    line.lastFirst≠[] ∧ line.Bears mark m

variable {mark : σ → μ} {m : μ}

theorem bears_of_closed {b : LineBuffer σ} {other : μ} (h : b.Bears mark other)
    (closed : b.hasOpenLine=false) : b.Bears mark m where
  lines := h.lines
  opened := by
    obtain ⟨newestFirst,maxLines,nextSeq⟩ := b
    intro line hl ht
    cases newestFirst with
    | nil => cases hl
    | cons newest older =>
      obtain rfl : newest=line := Option.some.inj hl
      have ht' : newest.terminated=true := by simpa [hasOpenLine] using closed
      rw [ht'] at ht
      cases ht

theorem bears_new (maxLines : Nat) : (new maxLines : LineBuffer σ).Bears mark m where
  lines := fun line h => by cases h
  opened := fun line h => by cases h

theorem bears_onOpenLine {b : LineBuffer σ} (h : b.Bears mark m) {change : Line σ → Line σ}
    (hc : ∀ line,line.Bears mark m → (change line).Bears mark m ∧
      ((change line).terminated=false → (change line).lastFirst≠[])) :
    (b.onOpenLine change).Bears mark m := by
  -- the line that is changed bears the mark, whether it is opened now or was open before
  have changed (line : Line σ) (older : List (Line σ)) (maxLines nextSeq : Nat)
      (hl : line.Bears mark m) (ho : ∀ line∈older,∃ m,line.Bears mark m) :
      (⟨change line :: older,maxLines,nextSeq⟩ : LineBuffer σ).Bears mark m := by
    obtain ⟨bears,nonempty⟩ := hc line hl
    constructor
    · intro line' hm
      cases hm with
      | head => exact ⟨m,bears⟩
      | tail _ hm => exact ho line' hm
    · intro line' hm ht
      obtain rfl : change line=line' := Option.some.inj hm
      exact ⟨nonempty ht,bears⟩
  have fresh (seq : Nat) : (⟨seq,[],false⟩ : Line σ).Bears mark m := fun run hr => by cases hr
  obtain ⟨newestFirst,maxLines,nextSeq⟩ := b
  cases newestFirst with
  | nil => exact changed _ [] maxLines (nextSeq+1) (fresh nextSeq) h.lines
  | cons line older =>
    cases ht : line.terminated with
    | true =>
      rw [onOpenLine_ended ht]
      exact changed _ (line :: older) maxLines (nextSeq+1) (fresh nextSeq) h.lines
    | false =>
      obtain ⟨_,bears⟩ := h.opened line rfl ht
      rw [onOpenLine_open ht]
      exact changed line older maxLines nextSeq bears
        (fun line' hl => h.lines line' (List.mem_cons_of_mem _ hl))

theorem bears_put {b : LineBuffer σ} (h : b.Bears mark m) {style : σ} (hs : mark style=m)
    (content : List Char) : (b.put style content).Bears mark m := by
  rw [put]
  split
  · exact h
  · apply bears_onOpenLine h
    intro line hl
    refine ⟨?_,fun _ => List.cons_ne_nil _ _⟩
    intro run hr
    cases hr with
    | head => exact hs
    | tail _ hr => exact hl run hr

theorem bears_newline {b : LineBuffer σ} (h : b.Bears mark m) : b.newline.Bears mark m := by
  apply bears_onOpenLine h
  intro line hl
  refine ⟨hl,?_⟩
  intro ht
  cases ht

theorem bears_writes {b : LineBuffer σ} (h : b.Bears mark m) {runs : List (Run σ)}
    (hr : ∀ run∈runs,mark run.style=m) : (runs.foldl write b).Bears mark m := by
  refine writes_induction (motive := fun _ b' => b'.Bears mark m) (t := []) ?_ ?_ h
  · intro _ b' run content hm _ _ hb
    exact bears_put hb (hr run hm) content
  · intro _ b' hb
    exact bears_newline hb

theorem bears_evict {b : LineBuffer σ} (h : b.Bears mark m) : b.evict.2.Bears mark m where
  lines := fun line hl => h.lines line (List.mem_of_mem_take hl)
  opened := by
    obtain ⟨newestFirst,maxLines,nextSeq⟩ := b
    intro line hl
    cases maxLines with
    | zero => cases hl
    | succ n =>
      cases newestFirst with
      | nil => cases hl
      | cons newest older => exact h.opened line hl

theorem bears_append {b : LineBuffer σ} (h : b.Bears mark m) {runs : List (Run σ)}
    (hr : ∀ run∈runs,mark run.style=m) : (b.append runs).2.Bears mark m :=
  bears_evict (bears_writes h hr)

theorem bears_setMaxLines {b : LineBuffer σ} (h : b.Bears mark m) (maxLines : Nat) :
    (b.setMaxLines maxLines).2.Bears mark m :=
  bears_evict (b := { b with maxLines := max 1 maxLines }) ⟨h.lines,h.opened⟩

/-- Once the open line is ended, the next one may bear any mark. -/
theorem bears_endOpenLine {b : LineBuffer σ} {other : μ} (h : b.Bears mark other) :
    b.endOpenLine.2.Bears mark m := by
  have ended : b.endOpenLine.2.Bears mark other := by
    obtain ⟨newestFirst,maxLines,nextSeq⟩ := b
    cases newestFirst with
    | nil => exact h
    | cons line older =>
      constructor
      · intro line' hl
        cases hl with
        | head => exact h.lines line List.mem_cons_self
        | tail _ hl => exact h.lines line' (List.mem_cons_of_mem _ hl)
      · intro line' hl ht
        obtain rfl : { line with terminated := true }=line' := Option.some.inj hl
        cases ht
  exact bears_of_closed ended (hasOpenLine_endOpenLine b)

theorem bears_clear (b : LineBuffer σ) : b.clear.Bears mark m where
  lines := fun line h => by cases h
  opened := fun line h => by cases h

end LineBuffer

end FleetConsole
