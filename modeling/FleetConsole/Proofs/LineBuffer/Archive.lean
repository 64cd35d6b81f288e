import FleetConsole.Proofs.LineBuffer.Writing

namespace FleetConsole

variable {σ : Type}

def Line.finish (line : Line σ) : Line σ := { line with terminated := true }

/-- A run as the changes that it makes, one after the other, to the line open at the time. -/
def Run.edits (run : Run σ) : List (Line σ → Line σ) :=
  match Text.fields '\n' run.text with
  | [] => []
  | first :: later => content first++later.flatMap (fun text => Line.finish :: content text)
where
  content (text : List Char) : List (Line σ → Line σ) :=
    if text=[] then [] else [fun line => line.push ⟨run.style,text⟩]

/-- What can be done to a buffer. -/
inductive LineBuffer.Change (σ : Type) where
  | append (runs : List (Run σ))
  | setMaxLines (maxLines : Nat)
  | endOpenLine
  | clear

namespace LineBuffer

/-- A change that evicts answers how many lines it evicted. -/
def change (b : LineBuffer σ) : Change σ → Option Nat × LineBuffer σ
  | .append runs => (some (b.append runs).1,(b.append runs).2)
  | .setMaxLines maxLines => (some (b.setMaxLines maxLines).1,(b.setMaxLines maxLines).2)
  | .endOpenLine => (none,b.endOpenLine.2)
  | .clear => (none,b.clear)

def changeAll (b : LineBuffer σ) (changes : List (Change σ)) : LineBuffer σ :=
  changes.foldl (fun b c => (b.change c).2) b

theorem put_eq_foldl (b : LineBuffer σ) (run : Run σ) (text : List Char) :
    b.put run.style text=(Run.edits.content run text).foldl onOpenLine b := by
  rw [put,Run.edits.content]
  split <;> rfl

theorem write_eq_foldl (b : LineBuffer σ) (run : Run σ) :
    b.write run=run.edits.foldl onOpenLine b := by
  rw [write,Run.edits]
  cases Text.fields '\n' run.text with
  | nil => rfl
  | cons first later =>
    simp only [List.foldl_append,List.foldl_flatMap,List.foldl_cons,← put_eq_foldl]
    rfl

theorem writes_eq_foldl (b : LineBuffer σ) (runs : List (Run σ)) :
    runs.foldl write b=(runs.flatMap Run.edits).foldl onOpenLine b := by
  have each : (write : LineBuffer σ → Run σ → LineBuffer σ)=
      fun b run => run.edits.foldl onOpenLine b := funext fun b => funext b.write_eq_foldl
  rw [List.foldl_flatMap,← each]

theorem hasOpenLine_eq (b : LineBuffer σ) :
    b.hasOpenLine=b.newestFirst.head?.any (fun line => !line.terminated) := by
  obtain ⟨newestFirst,maxLines,nextSeq⟩ := b
  cases newestFirst <;> rfl

theorem onOpenLine_eq (b : LineBuffer σ) (edit : Line σ → Line σ) :
    b.onOpenLine edit=
      if b.hasOpenLine then { b with newestFirst := b.newestFirst.modifyHead edit }
      else { b with
        newestFirst := edit ⟨b.nextSeq,[],false⟩ :: b.newestFirst
        nextSeq := b.nextSeq+1 } := by
  obtain ⟨newestFirst,maxLines,nextSeq⟩ := b
  cases newestFirst with
  | nil => rfl
  | cons line older =>
    cases ht : line.terminated with
    | true => rw [onOpenLine_ended ht]; simp [hasOpenLine,ht]
    | false => rw [onOpenLine_open ht]; simp [hasOpenLine,ht]

theorem endOpenLine_eq (b : LineBuffer σ) :
    b.endOpenLine.2=
      if b.hasOpenLine then { b with newestFirst := b.newestFirst.modifyHead Line.finish }
      else b := by
  obtain ⟨newestFirst,maxLines,nextSeq⟩ := b
  cases newestFirst with
  | nil => rfl
  | cons line older =>
    obtain ⟨seq,lastFirst,terminated⟩ := line
    cases terminated <;> rfl

end LineBuffer

/-- Every line ever opened, newest first, and how many of the oldest are discarded. -/
structure Archive (σ : Type) where
  newestFirst : List (Line σ)
  discarded : Nat
  maxLines : Nat
  discarded_le : discarded ≤ newestFirst.length

namespace Archive

def new (maxLines : Nat) : Archive σ := ⟨[],0,max 1 maxLines,Nat.le_refl 0⟩

def lines (a : Archive σ) : List (Line σ) := a.newestFirst.reverse

def size (a : Archive σ) : Nat := a.newestFirst.length

/-- Whether the newest line can be continued. -/
def hasOpenLine (a : Archive σ) : Bool :=
  decide (a.discarded<a.size) && a.newestFirst.head?.any (fun line => !line.terminated)

def onNewestLine (a : Archive σ) (edit : Line σ → Line σ) : Archive σ :=
  { a with
    newestFirst := a.newestFirst.modifyHead edit
    discarded_le := by
      rw [List.length_modifyHead]
      exact a.discarded_le }

/-- Lines are numbered from 1 on. -/
def openLine (a : Archive σ) : Archive σ :=
  { a with
    newestFirst := ⟨a.size+1,[],false⟩ :: a.newestFirst
    discarded_le := Nat.le_succ_of_le a.discarded_le }

/-- Changes the newest line, and opens one for it where that cannot be continued. -/
def onOpenLine (a : Archive σ) (edit : Line σ → Line σ) : Archive σ :=
  if a.hasOpenLine then a.onNewestLine edit else a.openLine.onNewestLine edit

/-- Discards what is beyond the limit, and takes nothing back. -/
def discard (a : Archive σ) : Archive σ :=
  { a with
    discarded := max a.discarded (a.size-a.maxLines)
    discarded_le := Nat.max_le.mpr ⟨a.discarded_le,Nat.sub_le _ _⟩ }

def write (a : Archive σ) (runs : List (Run σ)) : Archive σ :=
  (runs.flatMap Run.edits).foldl onOpenLine a

def endOpenLine (a : Archive σ) : Archive σ :=
  if a.hasOpenLine then a.onNewestLine Line.finish else a

def change (a : Archive σ) : LineBuffer.Change σ → Archive σ
  | .append runs => (a.write runs).discard
  | .setMaxLines maxLines => { a with maxLines := max 1 maxLines }.discard
  | .endOpenLine => a.endOpenLine
  | .clear => { a with discarded := a.size, discarded_le := Nat.le_refl _ }

def changeAll (a : Archive σ) (changes : List (LineBuffer.Change σ)) : Archive σ :=
  changes.foldl change a

/-- The buffer that keeps what is not discarded. -/
def shown (a : Archive σ) : LineBuffer σ :=
  ⟨a.newestFirst.take (a.size-a.discarded),a.maxLines,a.size+1⟩

theorem lines_shown (a : Archive σ) : a.shown.lines=a.lines.drop a.discarded := by
  have h := a.discarded_le
  simp only [LineBuffer.lines,shown,lines,size,List.drop_reverse]

theorem size_shown (a : Archive σ) : a.shown.size=a.size-a.discarded := by
  rw [LineBuffer.size,shown,List.length_take]
  exact Nat.min_eq_left (Nat.sub_le _ _)

theorem onOpenLine_fields (a : Archive σ) (edit : Line σ → Line σ) :
    (a.onOpenLine edit).discarded=a.discarded ∧ (a.onOpenLine edit).maxLines=a.maxLines := by
  rw [onOpenLine]
  split <;> exact ⟨rfl,rfl⟩

/-- What every change of the open line keeps, writing keeps. -/
theorem write_induction {motive : Archive σ → Prop} {a : Archive σ} {runs : List (Run σ)}
    (start : motive a)
    (step : ∀ a,motive a → ∀ run∈runs,∀ edit∈run.edits,motive (a.onOpenLine edit)) :
    motive (a.write runs) := by
  refine List.foldlRecOn _ _ start ?_
  intro a ha edit he
  obtain ⟨run,hr,he⟩ := List.mem_flatMap.mp he
  exact step a ha run hr edit he

theorem write_fields (a : Archive σ) (runs : List (Run σ)) :
    (a.write runs).discarded=a.discarded ∧ (a.write runs).maxLines=a.maxLines := by
  refine write_induction (motive := fun a' => a'.discarded=a.discarded ∧ a'.maxLines=a.maxLines)
    ⟨rfl,rfl⟩ ?_
  intro a' h _ _ edit _
  have same := a'.onOpenLine_fields edit
  exact ⟨same.1.trans h.1,same.2.trans h.2⟩

theorem hasOpenLine_shown (a : Archive σ) : a.shown.hasOpenLine=a.hasOpenLine := by
  have le := a.discarded_le
  rw [LineBuffer.hasOpenLine_eq,hasOpenLine,shown,List.head?_take]
  by_cases h : a.discarded<a.size
  · rw [if_neg (Nat.sub_ne_zero_of_lt h),decide_eq_true h,Bool.true_and]
  · rw [if_pos (Nat.sub_eq_zero_of_le (Nat.le_of_not_lt h)),decide_eq_false h,Bool.false_and]
    rfl

theorem size_onNewestLine (a : Archive σ) (edit : Line σ → Line σ) :
    (a.onNewestLine edit).size=a.size := List.length_modifyHead

theorem shown_onNewestLine (a : Archive σ) (edit : Line σ → Line σ) :
    (a.onNewestLine edit).shown=
      { a.shown with newestFirst := a.shown.newestFirst.modifyHead edit } := by
  have size := a.size_onNewestLine edit
  unfold shown
  rw [size]
  congr 1
  change (a.newestFirst.modifyHead edit).take (a.size-a.discarded)=_
  cases a.newestFirst <;> cases a.size-a.discarded <;> rfl

theorem shown_openLine (a : Archive σ) :
    a.openLine.shown={ a.shown with
      newestFirst := ⟨a.shown.nextSeq,[],false⟩ :: a.shown.newestFirst
      nextSeq := a.shown.nextSeq+1 } := by
  have h := a.discarded_le
  have more : a.openLine.size-a.openLine.discarded=a.size-a.discarded+1 := by
    have : a.openLine.size=a.size+1 := rfl
    have : a.openLine.discarded=a.discarded := rfl
    have : a.size=a.newestFirst.length := rfl
    omega
  rw [shown,more]
  rfl

theorem shown_onOpenLine (a : Archive σ) (edit : Line σ → Line σ) :
    (a.onOpenLine edit).shown=a.shown.onOpenLine edit := by
  rw [LineBuffer.onOpenLine_eq,hasOpenLine_shown,onOpenLine]
  split
  · exact a.shown_onNewestLine edit
  · rw [shown_onNewestLine,shown_openLine]
    rfl

theorem shown_write (a : Archive σ) (runs : List (Run σ)) :
    (a.write runs).shown=runs.foldl LineBuffer.write a.shown := by
  rw [LineBuffer.writes_eq_foldl,write]
  exact (List.foldl_hom shown (fun a edit => (a.shown_onOpenLine edit).symm)).symm

/-- Eviction is a rise in the number of discarded lines. -/
theorem shown_discard (a : Archive σ) : a.discard.shown=a.shown.evict.2 := by
  have kept : a.size-max a.discarded (a.size-a.maxLines)=min a.maxLines (a.size-a.discarded) := by
    omega
  change LineBuffer.mk (a.newestFirst.take (a.size-max a.discarded (a.size-a.maxLines))) _ _=_
  rw [kept,← List.take_take]
  rfl

theorem discarded_discard (a : Archive σ) :
    a.discard.discarded=a.discarded+a.shown.evict.1 := by
  have evicted : a.shown.evict.1=a.size-a.discarded-a.maxLines := by
    rw [← size_shown]
    rfl
  have after : a.discard.discarded=max a.discarded (a.size-a.maxLines) := rfl
  omega

theorem shown_endOpenLine (a : Archive σ) : a.endOpenLine.shown=a.shown.endOpenLine.2 := by
  rw [LineBuffer.endOpenLine_eq,hasOpenLine_shown,endOpenLine]
  split
  · exact a.shown_onNewestLine Line.finish
  · rfl

theorem shown_change (a : Archive σ) (c : LineBuffer.Change σ) :
    (a.change c).shown=(a.shown.change c).2 := by
  cases c with
  | append runs =>
    rw [change,shown_discard,shown_write]
    rfl
  | setMaxLines maxLines => exact shown_discard { a with maxLines := max 1 maxLines }
  | endOpenLine => exact a.shown_endOpenLine
  | clear => simp [shown,change,LineBuffer.change,LineBuffer.clear,size]

/-- The number that a change answers is that of the lines it discards. -/
theorem discarded_change (a : Archive σ) {c : LineBuffer.Change σ} {evicted : Nat}
    (h : (a.shown.change c).1=some evicted) :
    (a.change c).discarded=a.discarded+evicted := by
  cases c with
  | append runs =>
    obtain rfl := Option.some.inj h
    rw [change,discarded_discard,shown_write,(a.write_fields runs).1]
    rfl
  | setMaxLines maxLines =>
    obtain rfl := Option.some.inj h
    exact discarded_discard { a with maxLines := max 1 maxLines }
  | endOpenLine => cases h
  | clear => cases h

theorem shown_changeAll (a : Archive σ) (changes : List (LineBuffer.Change σ)) :
    (a.changeAll changes).shown=a.shown.changeAll changes := by
  rw [changeAll,LineBuffer.changeAll]
  exact (List.foldl_hom shown (fun a c => (a.shown_change c).symm)).symm

end Archive

end FleetConsole
