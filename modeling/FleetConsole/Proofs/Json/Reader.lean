import FleetConsole.Proofs.Json.Value
import Mathlib.Tactic.SplitIfs

namespace FleetConsole.Json

theorem skipSpace_append {blank : List Char} (h : blank.all isSpace=true) (rest : List Char) :
    skipSpace (blank++rest)=skipSpace rest := by
  induction blank with
  | nil => rfl
  | cons c blank ih =>
    rw [List.all_cons,Bool.and_eq_true] at h
    exact (List.dropWhile_cons_of_pos h.1).trans (ih h.2)

theorem skipSpace_cons {c : Char} (h : isSpace c=false) (rest : List Char) :
    skipSpace (c :: rest)=c :: rest := List.dropWhile_cons_of_neg (by simp [h])

section Folds

variable {σ : Type}

theorem readItemsFrom_close {one : σ → List Char → Except Fault (σ × List Char)}
    {state state' : σ} {text next rest : List Char} (h : one state text=.ok (state',next))
    (hn : skipSpace next = ']' :: rest) (f : Char) (fuel : List Char) :
    readItemsFrom one (f :: fuel) state text=.ok (state',rest) := by
  simp only [readItemsFrom,h,hn,if_true]

theorem readItemsFrom_comma {one : σ → List Char → Except Fault (σ × List Char)}
    {state state' : σ} {text next rest : List Char} (h : one state text=.ok (state',next))
    (hn : skipSpace next = ',' :: rest) (hr : (skipSpace rest).head?≠some ']') (f : Char)
    (fuel : List Char) :
    readItemsFrom one (f :: fuel) state text=readItemsFrom one fuel state' (skipSpace rest) := by
  simp [readItemsFrom,h,hn,hr]

theorem readMembersFrom_close {one : σ → String → List Char → Except Fault (σ × List Char)}
    {state state' : σ} {name : String} {text value next rest : List Char}
    (hk : readName text=.ok (name,value)) (h : one state name value=.ok (state',next))
    (hn : skipSpace next = '\x7d' :: rest) (f : Char) (fuel : List Char) :
    readMembersFrom one (f :: fuel) state text=.ok (state',rest) := by
  simp only [readMembersFrom,hk,h,hn,if_true]

theorem readMembersFrom_comma {one : σ → String → List Char → Except Fault (σ × List Char)}
    {state state' : σ} {name : String} {text value next rest : List Char}
    (hk : readName text=.ok (name,value)) (h : one state name value=.ok (state',next))
    (hn : skipSpace next = ',' :: rest) (f : Char) (fuel : List Char) :
    readMembersFrom one (f :: fuel) state text=
      readMembersFrom one fuel state' (skipSpace rest) := by
  simp [readMembersFrom,hk,h,hn]

theorem readMembersFrom_error {one : σ → String → List Char → Except Fault (σ × List Char)}
    {state : σ} {name : String} {text value : List Char} {fault : Fault}
    (hk : readName text=.ok (name,value)) (h : one state name value=.error fault) (f : Char)
    (fuel : List Char) : readMembersFrom one (f :: fuel) state text=.error fault := by
  simp only [readMembersFrom,hk,h]

/-- A round of reading items: one item, and then the end or the next round. -/
theorem readItemsFrom_ok {one : σ → List Char → Except Fault (σ × List Char)}
    {fuel : List Char} {state last : σ} {text rest : List Char}
    (h : readItemsFrom one fuel state text=.ok (last,rest)) :
    ∃ f fuel' state' next,fuel=f :: fuel' ∧ one state text=.ok (state',next) ∧
      (skipSpace next = ']' :: rest ∧ last=state' ∨
        ∃ more,skipSpace next = ',' :: more ∧
          readItemsFrom one fuel' state' (skipSpace more)=.ok (last,rest)) := by
  cases fuel with
  | nil => cases h
  | cons f fuel =>
    rw [readItemsFrom] at h
    split at h
    · cases h
    next state' next ho =>
      refine ⟨f,fuel,state',next,rfl,ho,?_⟩
      split at h
      · cases h
      next c more hn =>
        split at h
        next hc =>
          cases h
          exact .inl ⟨hc ▸ hn,rfl⟩
        next =>
          split at h
          next hc =>
            dsimp only at h
            split at h
            · cases h
            · exact .inr ⟨more,hc ▸ hn,h⟩
          next => cases h

theorem readMembersFrom_ok {one : σ → String → List Char → Except Fault (σ × List Char)}
    {fuel : List Char} {state last : σ} {text rest : List Char}
    (h : readMembersFrom one fuel state text=.ok (last,rest)) :
    ∃ f fuel' name value state' next,fuel=f :: fuel' ∧ readName text=.ok (name,value) ∧
      one state name value=.ok (state',next) ∧
      (skipSpace next = '\x7d' :: rest ∧ last=state' ∨
        ∃ more,skipSpace next = ',' :: more ∧
          readMembersFrom one fuel' state' (skipSpace more)=.ok (last,rest)) := by
  cases fuel with
  | nil => cases h
  | cons f fuel =>
    rw [readMembersFrom] at h
    split at h
    · cases h
    next name value hk =>
      split at h
      · cases h
      next state' next ho =>
        refine ⟨f,fuel,name,value,state',next,rfl,hk,ho,?_⟩
        split at h
        · cases h
        next c more hn =>
          split at h
          next hc =>
            cases h
            exact .inl ⟨hc ▸ hn,rfl⟩
          next =>
            split at h
            next hc => exact .inr ⟨more,hc ▸ hn,h⟩
            next => cases h

/-- What reading an item preserves, reading items preserves. -/
theorem readItemsFrom_preserves {one : σ → List Char → Except Fault (σ × List Char)}
    {motive : σ → Prop}
    (step : ∀ state text state' rest,motive state → one state text=.ok (state',rest) →
      motive state') {fuel : List Char} {state last : σ} {text rest : List Char}
    (hs : motive state) (h : readItemsFrom one fuel state text=.ok (last,rest)) :
    motive last := by
  induction fuel generalizing state text with
  | nil => cases h
  | cons f fuel ih =>
    obtain ⟨_,_,state',next,e,ho,hn⟩ := readItemsFrom_ok h
    cases e
    have hm := step state text state' next hs ho
    rcases hn with ⟨_,rfl⟩ | ⟨more,_,hr⟩
    · exact hm
    · exact ih hm hr

theorem readItems_preserves {one : σ → List Char → Except Fault (σ × List Char)}
    {motive : σ → Prop}
    (step : ∀ state text state' rest,motive state → one state text=.ok (state',rest) →
      motive state') {state state' : σ} {text rest : List Char}
    (hs : motive state) (h : readItems one state text=.ok (state',rest)) : motive state' := by
  rw [readItems] at h
  split at h
  · cases h
  · split at h
    · cases h
      exact hs
    · exact readItemsFrom_preserves step hs h

theorem readMembersFrom_preserves
    {one : σ → String → List Char → Except Fault (σ × List Char)} {motive : σ → Prop}
    (step : ∀ state name text state' rest,motive state → one state name text=.ok (state',rest) →
      motive state') {fuel : List Char} {state last : σ} {text rest : List Char}
    (hs : motive state) (h : readMembersFrom one fuel state text=.ok (last,rest)) :
    motive last := by
  induction fuel generalizing state text with
  | nil => cases h
  | cons f fuel ih =>
    obtain ⟨_,_,name,value,state',next,e,_,ho,hn⟩ := readMembersFrom_ok h
    cases e
    have hm := step state name value state' next hs ho
    rcases hn with ⟨_,rfl⟩ | ⟨more,_,hr⟩
    · exact hm
    · exact ih hm hr

theorem readMembers_preserves
    {one : σ → String → List Char → Except Fault (σ × List Char)} {motive : σ → Prop}
    (step : ∀ state name text state' rest,motive state → one state name text=.ok (state',rest) →
      motive state') {state state' : σ} {text rest : List Char}
    (hs : motive state) (h : readMembers one state text=.ok (state',rest)) : motive state' := by
  rw [readMembers] at h
  split at h
  · cases h
  · split at h
    · cases h
      exact hs
    · exact readMembersFrom_preserves step hs h

end Folds

/-- Reads an item of an array on top of those before it. -/
def itemReader (depth : Nat) (done : List Json) (text : List Char) :
    Except Fault (List Json × List Char) :=
  (readValue depth text).map (fun (v,rest) => (v :: done,rest))

/-- Reads the value of a member on top of the members before it. -/
def memberReader (depth : Nat) (done : List (String × Json)) (name : String) (text : List Char) :
    Except Fault (List (String × Json) × List Char) :=
  match readColon text with
  | .error fault => .error fault
  | .ok text => (readValue depth text).map (fun (v,rest) => ((name,v) :: done,rest))

theorem readValue_arr (depth : Nat) (rest : List Char) :
    readValue (depth+1) ('[' :: rest)=
      (readItems (itemReader depth) [] rest).map (fun (done,rest) => (.arr done.reverse,rest)) := by
  rw [readValue]
  rfl

theorem readValue_obj (depth : Nat) (rest : List Char) :
    readValue (depth+1) ('\x7b' :: rest)=
      (readMembers (memberReader depth) [] rest).map
        (fun (done,rest) => (.obj done.reverse,rest)) := by
  rw [readValue]
  rfl

theorem readValue_str (depth : Nat) (rest : List Char) :
    readValue depth ('"' :: rest)=(readQuoted rest).map (fun (s,rest) => (.str s,rest)) := by
  rw [readValue.eq_def]
  rfl

/-- A numeral begins with a minus sign or a digit. -/
theorem readValue_number {c : Char} (h : c = '-' ∨ isDigit c=true) (depth : Nat)
    (rest : List Char) : readValue depth (c :: rest)=readNumber (c :: rest) := by
  have other (d : Char) (hd : d ≠ '-' ∧ isDigit d=false) : c≠d := by
    rintro rfl
    rcases h with h | h
    · exact hd.1 h
    · rw [hd.2] at h
      cases h
  have n := other 'n' (by decide)
  have t := other 't' (by decide)
  have f := other 'f' (by decide)
  have q := other '"' (by decide)
  rw [readValue.eq_def]
  simp only [n,t,f,q,h,if_true,if_false]

/-- What is read begins neither with a blank nor with the end of an array. -/
theorem head_of_readValue {depth : Nat} {text rest : List Char} {v : Json}
    (h : readValue depth text=.ok (v,rest)) :
    ∃ c tail,text=c :: tail ∧ isSpace c=false ∧ c ≠ ']' := by
  cases text with
  | nil =>
    rw [readValue.eq_def] at h
    cases h
  | cons c tail =>
    have refused (hc : c = ']' ∨ isSpace c=true) : False := by
      have named : c = ']' ∨ c = ' ' ∨ c = '\t' ∨ c = '\n' ∨ c = '\r' := by
        simpa [isSpace,or_assoc] using hc
      rw [readValue.eq_def] at h
      rcases named with rfl | rfl | rfl | rfl | rfl <;> cases h
    refine ⟨c,tail,rfl,?_,fun e => refused (.inl e)⟩
    rw [← Bool.not_eq_true]
    exact fun e => refused (.inr e)

theorem map_ok {α β ε : Type} {x : Except ε α} {f : α → β} {b : β} (h : x.map f=.ok b) :
    ∃ a,x=.ok a ∧ f a=b := by
  cases x with
  | error e => cases h
  | ok a => exact ⟨a,rfl,Except.ok.inj h⟩

theorem bind_ok {α β ε : Type} {x : Except ε α} {f : α → Except ε β} {b : β}
    (h : x.bind f=.ok b) : ∃ a,x=.ok a ∧ f a=.ok b := by
  cases x with
  | error e => cases h
  | ok a => exact ⟨a,rfl,h⟩

theorem readNumber_ok {text rest : List Char} {v : Json} (h : readNumber text=.ok (v,rest)) :
    ∃ n,Numeral.read (if text.head?=some '-' then text.tail else text)=.ok (n,rest) ∧
      n.toJson? (decide (text.head?=some '-'))=some v := by
  unfold readNumber at h
  obtain ⟨⟨n,after⟩,read,h⟩ := bind_ok h
  refine ⟨n,?_⟩
  cases value : n.toJson? (decide (text.head?=some '-')) with
  | none =>
    simp only [value] at h
    cases h
  | some w =>
    simp only [value] at h
    cases h
    exact ⟨read,rfl⟩

def isNumber : Json → Bool
  | .int _ => true
  | .float _ => true
  | _ => false

theorem isNumber_of_readNumber {text rest : List Char} {v : Json}
    (h : readNumber text=.ok (v,rest)) : v.isNumber=true := by
  obtain ⟨n,_,value⟩ := readNumber_ok h
  unfold Numeral.toJson? at value
  split at value
  · split at value
    · cases value; rfl
    · split at value <;> cases value <;> rfl
  · obtain ⟨x,_,rfl⟩ := Option.map_eq_some_iff.mp value
    rfl

/-- Neither an array nor an object. -/
def isScalar : Json → Bool
  | .arr _ => false
  | .obj _ => false
  | _ => true

theorem isScalar_of_isNumber {v : Json} (h : v.isNumber=true) : v.isScalar=true := by
  cases v with
  | arr items => cases h
  | obj members => cases h
  | _ => rfl

/-- What was read is a scalar, an array of items or an object of members, by what came first. -/
theorem readValue_ok {depth : Nat} {text rest : List Char} {v : Json}
    (h : readValue depth text=.ok (v,rest)) :
    v.isScalar=true ∨
    (∃ d tail done,depth=d+1 ∧ text = '[' :: tail ∧
      readItems (itemReader d) [] tail=.ok (done,rest) ∧ v=.arr done.reverse) ∨
    (∃ d tail done,depth=d+1 ∧ text = '\x7b' :: tail ∧
      readMembers (memberReader d) [] tail=.ok (done,rest) ∧ v=.obj done.reverse) := by
  obtain ⟨c,tail,rfl,_,_⟩ := head_of_readValue h
  by_cases arr : c = '['
  · subst arr
    right; left
    cases depth with
    | zero =>
      rw [readValue] at h
      cases h
    | succ d =>
      rw [readValue_arr] at h
      obtain ⟨⟨done,rest'⟩,hi,e⟩ := map_ok h
      cases e
      exact ⟨d,tail,done,rfl,rfl,hi,rfl⟩
  by_cases obj : c = '\x7b'
  · subst obj
    right; right
    cases depth with
    | zero =>
      rw [readValue] at h
      cases h
    | succ d =>
      rw [readValue_obj] at h
      obtain ⟨⟨done,rest'⟩,hi,e⟩ := map_ok h
      cases e
      exact ⟨d,tail,done,rfl,rfl,hi,rfl⟩
  left
  rw [readValue.eq_def] at h
  simp only [arr,obj,if_false] at h
  split_ifs at h
  · obtain ⟨_,_,e⟩ := map_ok h
    cases e; rfl
  · obtain ⟨_,_,e⟩ := map_ok h
    cases e; rfl
  · obtain ⟨_,_,e⟩ := map_ok h
    cases e; rfl
  · obtain ⟨_,_,e⟩ := map_ok h
    cases e; rfl
  · exact isScalar_of_isNumber (isNumber_of_readNumber h)

/-- Null and numbers can be told by what comes first. -/
theorem start_of_readValue {depth : Nat} {c : Char} {tail rest : List Char} {v : Json}
    (h : readValue depth (c :: tail)=.ok (v,rest)) (hv : v=.null ∨ v.isNumber=true) :
    c = 'n' ∨ c = '-' ∨ isDigit c=true := by
  by_cases n : c = 'n'
  · exact .inl n
  by_cases number : c = '-' ∨ isDigit c=true
  · exact .inr number
  exfalso
  rw [readValue.eq_def] at h
  simp only [n,number,if_false] at h
  split_ifs at h
  · obtain ⟨_,_,e⟩ := map_ok h
    cases e
    simp [isNumber] at hv
  · obtain ⟨_,_,e⟩ := map_ok h
    cases e
    simp [isNumber] at hv
  · obtain ⟨_,_,e⟩ := map_ok h
    cases e
    simp [isNumber] at hv
  · cases depth with
    | zero => cases h
    | succ d =>
      obtain ⟨_,_,e⟩ := map_ok h
      cases e
      simp [isNumber] at hv
  · cases depth with
    | zero => cases h
    | succ d =>
      obtain ⟨_,_,e⟩ := map_ok h
      cases e
      simp [isNumber] at hv

theorem fits_of_isScalar {v : Json} (h : v.isScalar=true) (depth : Nat) : v.fits depth=true := by
  cases v with
  | arr items => cases h
  | obj members => cases h
  | _ => rfl

/-- Nothing is read that is nested too deep. -/
theorem fits_of_readValue {depth : Nat} {text rest : List Char} {v : Json}
    (h : readValue depth text=.ok (v,rest)) : v.fits depth=true := by
  induction depth generalizing text v rest with
  | zero =>
    rcases readValue_ok h with hs | ⟨d,_,_,hd,_⟩ | ⟨d,_,_,hd,_⟩
    · exact fits_of_isScalar hs 0
    · cases hd
    · cases hd
  | succ depth ih =>
    rcases readValue_ok h with hs | ⟨d,tail,done,hd,_,hi,rfl⟩ | ⟨d,tail,done,hd,_,hm,rfl⟩
    · exact fits_of_isScalar hs _
    · cases hd
      have fit : ∀ v∈done,v.fits depth=true := by
        refine readItems_preserves (motive := fun done => ∀ v∈done,v.fits depth=true) ?_
          (by simp) hi
        intro done text done' rest hs h
        obtain ⟨⟨v,rest'⟩,hv,e⟩ := map_ok h
        cases e
        exact List.forall_mem_cons.mpr ⟨ih hv,hs⟩
      exact fits_arr_iff.mpr ⟨depth,rfl,fun v hv => fit v (List.mem_reverse.mp hv)⟩
    · cases hd
      have fit : ∀ m∈done,m.2.fits depth=true := by
        refine readMembers_preserves
          (motive := fun done => ∀ m∈done,m.2.fits depth=true) ?_ (by simp) hm
        intro done name text done' rest hs h
        unfold memberReader at h
        split at h
        · cases h
        · obtain ⟨⟨v,rest'⟩,hv,e⟩ := map_ok h
          cases e
          exact List.forall_mem_cons.mpr ⟨ih hv,hs⟩
      exact fits_obj_iff.mpr ⟨depth,rfl,fun m hv => fit m (List.mem_reverse.mp hv)⟩

theorem read_ok {text : List Char} {v : Json} (h : read text=.ok v) :
    ∃ rest,readValue maxDepth (skipSpace text)=.ok (v,rest) ∧ skipSpace rest=[] := by
  unfold read at h
  cases hr : readValue maxDepth (skipSpace text) with
  | error fault =>
    rw [hr] at h
    cases h
  | ok r =>
    obtain ⟨v',rest⟩ := r
    rw [hr] at h
    have he : readEnd v' rest=.ok v := h
    unfold readEnd at he
    split at he
    next hs =>
      cases he
      exact ⟨rest,rfl,hs⟩
    next => cases he

end FleetConsole.Json
