import FleetConsole.Proofs.Json.Printer
import Mathlib.Data.List.Forall2

namespace FleetConsole.Json

theorem endsNumeral_of_blank {blank rest : List Char} (h : blank.all isSpace=true)
    (hr : endsNumeral rest=true) : endsNumeral (blank++rest)=true := by
  cases blank with
  | nil => exact hr
  | cons c blank =>
    rw [List.all_cons,Bool.and_eq_true] at h
    have hc : c = ' ' ∨ c = '\t' ∨ c = '\n' ∨ c = '\r' := by simpa [isSpace,or_assoc] using h.1
    rcases hc with rfl | rfl | rfl | rfl <;> rfl

theorem endsNumeral_spacedItems (s : Spacing) (depth k : Nat) (items : List Json)
    (rest : List Char) :
    endsNumeral (spacedItems s depth items (s.gap k ++ ']' :: rest))=true := by
  cases items with
  | nil => exact endsNumeral_of_blank (s.blankGap k) rfl
  | cons v items => rfl

theorem endsNumeral_spacedMembers (s : Spacing) (depth k : Nat) (members : List (String × Json))
    (rest : List Char) :
    endsNumeral (spacedMembers s depth members (s.gap k ++ '\x7d' :: rest))=true := by
  cases members with
  | nil => exact endsNumeral_of_blank (s.blankGap k) rfl
  | cons m members => rfl

theorem head_writeInt (n : Int) : ∃ c tail,writeInt n=c :: tail ∧ (c = '-' ∨ isDigit c=true) := by
  unfold writeInt
  split
  · exact ⟨_,_,rfl,.inl rfl⟩
  · have hd : ∀ c∈Text.decimal n.natAbs,c.isDigit=true := fun c => Text.isDigit_of_mem_decimal
    cases hs : Text.decimal n.natAbs with
    | nil => exact absurd hs Nat.toDigits_ne_nil
    | cons c tail =>
      exact ⟨c,tail,rfl,.inr (isDigit_of_isDigit (hd c (hs ▸ List.mem_cons_self ..)))⟩

theorem readValue_scalar {v : Json} (hs : v.isScalar=true) (hw : v.isWhole=true) (d : Nat)
    {rest : List Char} (hr : endsNumeral rest=true) :
    readValue d (v.write rest)=.ok (v,rest) := by
  cases v with
  | null =>
    rw [write,readValue.eq_def]
    rfl
  | bool b => cases b <;> (rw [write,readValue.eq_def]; rfl)
  | int n =>
    obtain ⟨c,tail,hc,hd⟩ := head_writeInt n
    have hread := readNumber_writeInt hw hr
    rw [hc,List.cons_append] at hread
    rw [write,hc,List.cons_append,readValue_number hd,hread]
  | float x =>
    have hx : x=minusZero := eq_of_beq hw
    have hread := readNumber_minusZero hr
    rw [writeFloat_minusZero,List.cons_append] at hread
    rw [write,hx,writeFloat_minusZero,List.cons_append,readValue_number (.inl rfl),hread]
  | str t =>
    rw [write,writeQuoted_eq,readValue_str,readQuoted_quotedTail]
    rfl
  | arr items => cases hs
  | obj members => cases hs

/-- A value as it stands between others is read as some value, which may be another one. -/
def ReadsAs (s : Spacing) (d depth : Nat) (v w : Json) : Prop :=
  ∀ rest,endsNumeral rest=true → readValue d (v.spaced s depth rest)=.ok (w,rest)

/-- An item as it stands between others is read as it was written. -/
def ReadsBack (s : Spacing) (d depth : Nat) (v : Json) : Prop :=
  ∀ rest,endsNumeral rest=true → readValue d (v.spaced s depth rest)=.ok (v,rest)

theorem readItemsFrom_spaced (s : Spacing) (d depth k : Nat) {v w : Json}
    {items content : List Json} (hv : ReadsAs s d depth v w)
    (hi : List.Forall₂ (ReadsAs s d depth) items content) {fuel : List Char}
    (hf : items.length<fuel.length) (done : List Json) (rest : List Char) :
    readItemsFrom (itemReader d) fuel done
      (v.spaced s depth (spacedItems s depth items (s.gap k ++ ']' :: rest)))=
      .ok (content.reverse++w :: done,rest) := by
  induction hi generalizing v w fuel done with
  | nil =>
    cases fuel with
    | nil => cases hf
    | cons f fuel =>
      have hone : itemReader d done (v.spaced s depth (s.gap k ++ ']' :: rest))=
          .ok (w :: done,s.gap k ++ ']' :: rest) := by
        rw [itemReader,hv _ (endsNumeral_of_blank (s.blankGap k) rfl)]
        rfl
      exact readItemsFrom_close hone (skipSpace_append (s.blankGap k) _) f fuel
  | @cons v' w' items content hv' hi ih =>
    cases fuel with
    | nil => cases hf
    | cons f fuel =>
      have hone : itemReader d done (v.spaced s depth
          (spacedItems s depth (v' :: items) (s.gap k ++ ']' :: rest)))=
          .ok (w :: done,spacedItems s depth (v' :: items) (s.gap k ++ ']' :: rest)) := by
        rw [itemReader,hv _ (endsNumeral_spacedItems s depth k (v' :: items) rest)]
        rfl
      obtain ⟨c,tail,hc,blank,other⟩ := head_of_readValue
        (hv' _ (endsNumeral_spacedItems s depth k items rest))
      have hskip : skipSpace (s.gap depth++v'.spaced s depth
          (spacedItems s depth items (s.gap k ++ ']' :: rest)))=
          v'.spaced s depth (spacedItems s depth items (s.gap k ++ ']' :: rest)) := by
        rw [skipSpace_append (s.blankGap depth),hc,skipSpace_cons blank]
      rw [readItemsFrom_comma hone rfl (by rw [hskip,hc]; simpa using other),hskip,
        ih hv' (Nat.lt_of_succ_lt_succ hf)]
      simp

theorem readItems_spaced (s : Spacing) (d depth k : Nat) {v w : Json}
    {items content : List Json} (hv : ReadsAs s d depth v w)
    (hi : List.Forall₂ (ReadsAs s d depth) items content) (rest : List Char) :
    readItems (itemReader d) [] (s.gap depth++
      v.spaced s depth (spacedItems s depth items (s.gap k ++ ']' :: rest)))=
      .ok (content.reverse++[w],rest) := by
  obtain ⟨c,tail,hc,blank,other⟩ := head_of_readValue
    (hv _ (endsNumeral_spacedItems s depth k items rest))
  have room : items.length<(s.gap depth++
      v.spaced s depth (spacedItems s depth items (s.gap k ++ ']' :: rest))).length := by
    have long := le_length_spacedItems s depth items (s.gap k ++ ']' :: rest)
    have longer := le_length_spaced s depth v
      (spacedItems s depth items (s.gap k ++ ']' :: rest))
    simp only [List.length_append,List.length_cons] at long ⊢
    omega
  have loop := readItemsFrom_spaced s d depth k hv hi room [] rest
  rw [readItems,skipSpace_append (s.blankGap depth),hc,skipSpace_cons blank]
  simp only [other,if_false]
  rw [← hc,loop]

/-- An array is read by its items. -/
theorem readsAs_arr {s : Spacing} {d depth : Nat} {items content : List Json}
    (h : List.Forall₂ (ReadsAs s d (depth+1)) items content) :
    ReadsAs s (d+1) depth (.arr items) (.arr content) := by
  intro rest _
  cases h with
  | nil =>
    rw [spaced.eq_def]
    exact readValue_arr d (']' :: rest)
  | cons hv hi =>
    rw [spaced,readValue_arr,readItems_spaced s d (depth+1) depth hv hi]
    simp [Except.map]

theorem readColon_spaced (s : Spacing) {c : Char} (hc : isSpace c=false) (tail : List Char) :
    readColon (':' :: (s.colon++c :: tail))=.ok (c :: tail) := by
  show Except.ok (skipSpace (s.colon++c :: tail))=_
  rw [skipSpace_append s.blankColon,skipSpace_cons hc]

theorem readName_writeQuoted (name : String) (rest : List Char) :
    readName (writeQuoted name rest)=.ok (name,rest) := by
  rw [writeQuoted_eq]
  exact readQuoted_quotedTail name rest

section

variable {σ : Type} (one : σ → String → List Char → Except Fault (σ × List Char)) (s : Spacing)
  (depth : Nat)

/-- A member as it stands between others is taken up into a state. -/
def Takes (state : σ) (m : String × Json) (next : σ) : Prop :=
  ∀ rest,endsNumeral rest=true →
    one state m.1 (':' :: (s.colon++m.2.spaced s depth rest))=.ok (next,rest)

/-- Members are taken up one after another. -/
inductive TakesAll : σ → List (String × Json) → σ → Prop where
  | nil (state : σ) : TakesAll state [] state
  | cons {state next last : σ} {m : String × Json} {members : List (String × Json)}
      (first : Takes one s depth state m next) (others : TakesAll next members last) :
      TakesAll state (m :: members) last

variable {one s depth} {state next last : σ} {name : String} {v : Json}
  {members : List (String × Json)}

theorem readMembersFrom_spaced (k : Nat) (hv : Takes one s depth state (name,v) next)
    (hm : TakesAll one s depth next members last) {fuel : List Char}
    (hf : members.length<fuel.length) (rest : List Char) :
    readMembersFrom one fuel state (writeQuoted name (':' :: (s.colon++v.spaced s depth
      (spacedMembers s depth members (s.gap k ++ '\x7d' :: rest)))))=.ok (last,rest) := by
  induction hm generalizing name v state fuel with
  | nil next =>
    cases fuel with
    | nil => cases hf
    | cons f fuel =>
      exact readMembersFrom_close (readName_writeQuoted _ _)
        (hv _ (endsNumeral_of_blank (s.blankGap k) rfl)) (skipSpace_append (s.blankGap k) _) f fuel
  | @cons next next' last m members first others ih =>
    obtain ⟨name',w⟩ := m
    cases fuel with
    | nil => cases hf
    | cons f fuel =>
      have hskip : skipSpace (s.gap depth++writeQuoted name' (':' :: (s.colon++w.spaced s depth
          (spacedMembers s depth members (s.gap k ++ '\x7d' :: rest)))))=
          writeQuoted name' (':' :: (s.colon++w.spaced s depth
            (spacedMembers s depth members (s.gap k ++ '\x7d' :: rest)))) := by
        rw [skipSpace_append (s.blankGap depth),writeQuoted_eq]
        rfl
      rw [readMembersFrom_comma (readName_writeQuoted _ _)
        (hv _ (endsNumeral_spacedMembers s depth k ((name',w) :: members) rest)) rfl,hskip]
      exact ih first (Nat.lt_of_succ_lt_succ hf)

theorem readMembers_spaced (k : Nat) (hv : Takes one s depth state (name,v) next)
    (hm : TakesAll one s depth next members last) (rest : List Char) :
    readMembers one state (s.gap depth++writeQuoted name (':' :: (s.colon++
      v.spaced s depth (spacedMembers s depth members (s.gap k ++ '\x7d' :: rest)))))=
      .ok (last,rest) := by
  have room : members.length<(s.gap depth++writeQuoted name (':' :: (s.colon++
      v.spaced s depth (spacedMembers s depth members (s.gap k ++ '\x7d' :: rest))))).length := by
    have long := le_length_spacedMembers s depth members (s.gap k ++ '\x7d' :: rest)
    have longer := le_length_spaced s depth v
      (spacedMembers s depth members (s.gap k ++ '\x7d' :: rest))
    have quoted := le_length_quotedTail name (':' :: (s.colon++
      v.spaced s depth (spacedMembers s depth members (s.gap k ++ '\x7d' :: rest))))
    rw [writeQuoted_eq]
    simp only [List.length_append,List.length_cons] at long quoted ⊢
    omega
  have loop := readMembersFrom_spaced k hv hm room rest
  rw [readMembers,skipSpace_append (s.blankGap depth)]
  exact loop

end

/-- A member as it stands between others is read as one of the same name. -/
structure MemberReads (s : Spacing) (d depth : Nat) (m c : String × Json) : Prop where
  same : m.1=c.1
  value : ReadsAs s d depth m.2 c.2

theorem takes_memberReader {s : Spacing} {d depth : Nat} {m c : String × Json}
    (h : MemberReads s d depth m c) (done : List (String × Json)) :
    Takes (memberReader d) s depth done m (c :: done) := by
  obtain ⟨name,w⟩ := c
  obtain ⟨same,hv⟩ := h
  intro rest hr
  obtain ⟨c,tail,hc,blank,_⟩ := head_of_readValue (hv rest hr)
  have back := hv rest hr
  rw [hc] at back ⊢
  simp only [memberReader,readColon_spaced s blank,back,same]
  rfl

theorem takesAll_memberReader {s : Spacing} {d depth : Nat}
    {members content : List (String × Json)}
    (hm : List.Forall₂ (MemberReads s d depth) members content) (done : List (String × Json)) :
    TakesAll (memberReader d) s depth done members (content.reverse++done) := by
  induction hm generalizing done with
  | nil => exact .nil done
  | @cons m c members content first others ih =>
    rw [List.reverse_cons,List.append_assoc]
    exact .cons (takes_memberReader first done) (ih (c :: done))

/-- An object is read by its members. -/
theorem readsAs_obj {s : Spacing} {d depth : Nat} {members content : List (String × Json)}
    (h : List.Forall₂ (MemberReads s d (depth+1)) members content) :
    ReadsAs s (d+1) depth (.obj members) (.obj content) := by
  intro rest _
  cases h with
  | nil =>
    rw [spaced.eq_def]
    exact readValue_obj d ('\x7d' :: rest)
  | @cons m c members content first others =>
    obtain ⟨name,v⟩ := m
    rw [spaced,readValue_obj,readMembers_spaced depth (takes_memberReader first [])
      (takesAll_memberReader others [c])]
    simp [Except.map]

/-- A value of whole numbers that is nested no deeper than the reader follows is read back. -/
theorem readsBack {v : Json} (s : Spacing) {d : Nat} (hf : v.fits d=true)
    (hw : v.isWhole=true) (depth : Nat) : ReadsBack s d depth v := by
  induction v using induct generalizing d depth with
  | arr items ih =>
    obtain ⟨d,rfl,fit⟩ := fits_arr_iff.mp hf
    rw [isWhole_arr_iff] at hw
    have back : ∀ v∈items,ReadsAs s d (depth+1) v v :=
      fun v hm => ih v hm (fit v hm) (hw v hm) (depth+1)
    exact readsAs_arr (List.forall₂_same.mpr back)
  | obj members ih =>
    obtain ⟨d,rfl,fit⟩ := fits_obj_iff.mp hf
    rw [isWhole_obj_iff] at hw
    have back : ∀ m∈members,MemberReads s d (depth+1) m m :=
      fun m hm => ⟨rfl,ih m hm (fit m hm) (hw m hm) (depth+1)⟩
    exact readsAs_obj (List.forall₂_same.mpr back)
  | _ => exact fun rest hr => readValue_scalar rfl hw d hr

theorem read_of_readsAs {s : Spacing} {v w : Json} (h : ReadsAs s maxDepth 0 v w) :
    read (v.spaced s 0 [])=.ok w := by
  have hv := h [] rfl
  obtain ⟨c,tail,hc,blank,_⟩ := head_of_readValue hv
  rw [read,hc,skipSpace_cons blank,← hc,hv]
  rfl

theorem read_spaced {v : Json} (s : Spacing) (hf : v.fits maxDepth=true)
    (hw : v.isWhole=true) : read (v.spaced s 0 [])=.ok v :=
  read_of_readsAs (readsBack s hf hw 0)

theorem read_compact {v : Json} (hf : v.fits maxDepth=true) (hw : v.isWhole=true) :
    read v.compact=.ok v := by
  have h := read_spaced .none hf hw
  rwa [spaced_none] at h

theorem read_pretty_of_readsAs {v w : Json} (h : ReadsAs .lines maxDepth 0 v w) :
    read v.pretty=.ok w := by
  have read := read_of_readsAs h
  rwa [spaced_lines] at read

theorem read_pretty {v : Json} (hf : v.fits maxDepth=true) (hw : v.isWhole=true) :
    read v.pretty=.ok v := read_pretty_of_readsAs (readsBack .lines hf hw 0)

end FleetConsole.Json
