import FleetConsole.Proofs.Text.Numeral
import FleetConsole.Proofs.Time.Calendar
import FleetConsole.Time.Timestamp
import Mathlib.Tactic.SplitIfs

namespace FleetConsole

/-- Dates are kept for the moment, and only second 59 runs on as a leap second. -/
structure Instant.Proper (t : Instant) : Prop where
  dated : t.date.isValid=true
  nanos : t.nanos<2*nanosPerSecond
  leap : nanosPerSecond ≤ t.nanos → t.timeOfDay.second=59

namespace Timestamp

section

variable {digits : List Char}

theorem takeWhile_digits (hd : ∀ c∈digits,c.isDigit=true) {rest : List Char}
    (hr : rest.head?.any isDigit=false) : (digits++rest).takeWhile isDigit=digits :=
  Text.takeWhile_front (fun c hc => Text.isDigit_iff.mpr (hd c hc)) hr

/-- Up to a limit digits are taken whatever follows. -/
theorem readDigits?_limited (hd : ∀ c∈digits,c.isDigit=true) (hn : digits≠[])
    (rest : List Char) :
    readDigits? (some digits.length) (digits++rest)=
      some (Nat.ofDigitChars 10 digits 0,rest) := by
  have all : (digits++rest).takeWhile isDigit=digits++rest.takeWhile isDigit :=
    List.takeWhile_append_of_pos (fun c hc => Text.isDigit_iff.mpr (hd c hc))
  simp only [readDigits?,all,List.take_left,hn,if_false,Text.digitsFrom?_eq hd,Option.map_some,
    List.drop_left]

theorem readDigits?_all (hd : ∀ c∈digits,c.isDigit=true) (hn : digits≠[]) {rest : List Char}
    (hr : rest.head?.any isDigit=false) :
    readDigits? none (digits++rest)=some (Nat.ofDigitChars 10 digits 0,rest) := by
  simp only [readDigits?,takeWhile_digits hd hr,hn,if_false,Text.digitsFrom?_eq hd,
    Option.map_some,List.drop_left]

end

theorem readDigits?_padded {width n : Nat} (hw : 0<width) (h : n<10^width) (rest : List Char) :
    readDigits? (some width) (Text.padded width n++rest)=some (n,rest) := by
  have taken := readDigits?_limited (fun c => Text.isDigit_of_mem_padded)
    (Text.padded_ne_nil width n) rest
  rwa [Text.length_padded hw h,Text.ofDigitChars_padded] at taken

theorem readField?_padded {low high n : Nat} (hl : low ≤ n) (hh : n ≤ high) (hn : n<100)
    (rest : List Char) : readField? low high (Text.padded 2 n++rest)=some (n,rest) := by
  have taken : readDigits? (some 2) (Text.padded 2 n++rest)=some (n,rest) :=
    readDigits?_padded (by decide) hn rest
  simp only [readField?,Text.trimLeft_padded,taken,Option.bind_eq_bind,Option.bind_some,hl,hh,
    and_self,if_true]

theorem readMark?_self {mark : Char} (h : Text.isBlank mark=false) (rest : List Char) :
    readMark? mark (mark :: rest)=some rest := by
  rw [readMark?,Text.trimLeft_cons h]
  exact if_pos rfl

theorem readYear?_writeYear (year : Int) {rest : List Char}
    (hr : rest.head?.any isDigit=false) :
    readYear? (writeYear year++rest)=some (year,rest) := by
  have all := readDigits?_all (fun c => Text.isDigit_of_mem_padded)
    (Text.padded_ne_nil 4 year.natAbs) hr
  rw [Text.ofDigitChars_padded] at all
  rw [writeYear]
  split_ifs with four negative
  · -- What begins with a digit has no sign, and then four digits are the limit.
    have digits : readDigits? (some 4) (Text.padded 4 year.natAbs++rest)=
        some (year.natAbs,rest) := readDigits?_padded (by decide) (by omega) rest
    have value : (year.natAbs : Int)=year := by omega
    cases h : Text.padded 4 year.natAbs with
    | nil => exact absurd h (Text.padded_ne_nil 4 year.natAbs)
    | cons c more =>
      have digit : c.isDigit=true :=
        Text.isDigit_of_mem_padded (by rw [h]; exact List.mem_cons_self ..)
      have minus : c ≠ '-' := by rintro rfl; exact absurd digit (by decide)
      have plus : c ≠ '+' := by rintro rfl; exact absurd digit (by decide)
      rw [h] at digits
      rw [readYear?,List.cons_append,Text.trimLeft_cons (Text.isBlank_of_isDigit digit)]
      split
      next e => exact absurd (List.cons.inj e).1 minus
      next e => exact absurd (List.cons.inj e).1 plus
      next =>
        rw [List.cons_append] at digits
        simp only [digits,Option.map_some,value]
  · have value : -(year.natAbs : Int)=year := by omega
    rw [List.cons_append,readYear?,Text.trimLeft_cons (by decide)]
    simp only [all,Option.map_some,value]
  · have value : (year.natAbs : Int)=year := by omega
    rw [List.cons_append,readYear?,Text.trimLeft_cons (by decide)]
    simp only [all,Option.map_some,value]

theorem readDate?_write {d : Date} (h : d.isValid=true) (rest : List Char) :
    readDate? (writeYear d.year ++ '-' :: (Text.padded 2 d.month ++ '-' ::
      (Text.padded 2 d.day++rest)))=some (d,rest) := by
  obtain ⟨⟨hm,hm'⟩,hd,hd'⟩ := Date.bounds_of_isValid h
  have year (more : List Char) :
      readYear? (writeYear d.year ++ '-' :: more)=some (d.year,'-' :: more) :=
    readYear?_writeYear d.year rfl
  have month := readField?_padded hm hm' (by omega : d.month<100)
  have day := readField?_padded hd hd' (by omega : d.day<100)
  have mark (more : List Char) : readMark? '-' ('-' :: more)=some more :=
    readMark?_self (by decide) more
  simp only [readDate?,year,mark,month,day,Option.bind_eq_bind,Option.bind_some,h,if_true]

/-- Neither a digit nor a point, behind which a time would go on. -/
def endsTime (rest : List Char) : Bool := rest.head?.all (fun c => !isDigit c && c != '.')

theorem readFraction?_padded {places value : Nat} (hp : 0<places) (hp' : places ≤ 9)
    (hv : value<10^places) {rest : List Char} (hr : endsTime rest=true) :
    readFraction? ('.' :: Text.padded places value++rest)=
      some (value*Text.placeValue (9-places),rest) := by
  have digits : ∀ c∈Text.padded places value,c.isDigit=true := fun c =>
    Text.isDigit_of_mem_padded
  have ends : rest.head?.any isDigit=false := by
    cases rest with
    | nil => rfl
    | cons c rest =>
      have hc := (Bool.and_eq_true_iff.mp hr).1
      rwa [Bool.not_eq_true'] at hc
  have all := takeWhile_digits digits ends
  have length := Text.length_padded hp hv
  have used : (Text.padded places value).take 9=Text.padded places value :=
    List.take_of_length_le (by omega)
  rw [List.cons_append]
  simp only [readFraction?,all,used,Text.padded_ne_nil,if_false,Text.digitsFrom?_eq digits,
    Text.ofDigitChars_padded,length,Option.bind_eq_bind,Option.bind_some,List.drop_left']

theorem readFraction?_writeFraction {nanos : Nat} (h : nanos<nanosPerSecond)
    {rest : List Char} (hr : endsTime rest=true) :
    readFraction? (writeFraction nanos++rest)=some (nanos,rest) := by
  have bound : nanos<1000000000 := h
  rw [writeFraction]
  split_ifs with none milli micro
  · cases rest with
    | nil => rw [none]; rfl
    | cons c rest =>
      have point : c ≠ '.' := bne_iff_ne.mp (Bool.and_eq_true_iff.mp hr).2
      rw [List.nil_append,readFraction?]
      · rw [none]
      · intro more e
        exact point (List.cons.inj e).1
  · have value : nanos/1000000*Text.placeValue (9-3)=nanos := by
      change nanos/1000000*1000000=nanos
      omega
    rw [readFraction?_padded (by decide) (by decide) (by omega) hr,value]
  · have value : nanos/1000*Text.placeValue (9-6)=nanos := by
      change nanos/1000*1000=nanos
      omega
    rw [readFraction?_padded (by decide) (by decide) (by omega) hr,value]
  · have value : nanos*Text.placeValue (9-9)=nanos := Nat.mul_one nanos
    rw [readFraction?_padded (by decide) (by decide) (by omega) hr,value]

theorem readTime?_write {hour minute second nanos : Nat} (hh : hour ≤ 23) (hm : minute ≤ 59)
    (hs : second ≤ 60) (hn : nanos<nanosPerSecond) {rest : List Char}
    (hr : endsTime rest=true) :
    readTime? (Text.padded 2 hour ++ ':' :: (Text.padded 2 minute ++ ':' ::
      (Text.padded 2 second++(writeFraction nanos++rest))))=
      some ((3600*hour+60*minute+second-second/60,nanos+second/60*nanosPerSecond),rest) := by
  have hours := readField?_padded (Nat.zero_le _) hh (by omega : hour<100)
  have minutes := readField?_padded (Nat.zero_le _) hm (by omega : minute<100)
  have seconds := readField?_padded (Nat.zero_le _) hs (by omega : second<100)
  have mark (more : List Char) : readMark? ':' (':' :: more)=some more :=
    readMark?_self (by decide) more
  have fraction := readFraction?_writeFraction hn hr
  simp only [readTime?,hours,minutes,seconds,mark,fraction,Option.bind_eq_bind,Option.bind_some]

theorem write_eq (t : Instant) :
    write t=writeYear t.date.year ++ '-' :: (Text.padded 2 t.date.month ++ '-' ::
      (Text.padded 2 t.date.day ++ 'T' :: (Text.padded 2 t.timeOfDay.hour ++ ':' ::
        (Text.padded 2 t.timeOfDay.minute ++ ':' ::
          (Text.padded 2 (t.timeOfDay.second+t.nanos/nanosPerSecond)++
            (writeFraction (t.nanos%nanosPerSecond)++['Z'])))))) := by
  simp only [write,writeLocal,List.append_assoc,List.cons_append]

/-- Hours, minutes and seconds make up the second of the day. -/
theorem timeOfDay_parts (t : Instant) :
    3600*t.timeOfDay.hour+60*t.timeOfDay.minute+t.timeOfDay.second=t.secondOfDay ∧
      t.timeOfDay.hour ≤ 23 ∧ t.timeOfDay.minute ≤ 59 ∧ t.timeOfDay.second ≤ 59 := by
  simp only [Instant.timeOfDay,TimeOfDay.ofSeconds,Instant.secondOfDay,secondsPerDay]
  omega

/-- The second is written as 60 just when it runs on. -/
theorem second_of_proper {t : Instant} (h : t.Proper) :
    t.timeOfDay.second+t.nanos/nanosPerSecond ≤ 60 ∧
      (t.timeOfDay.second+t.nanos/nanosPerSecond)/60=t.nanos/nanosPerSecond := by
  obtain ⟨_,_,_,second⟩ := timeOfDay_parts t
  by_cases runsOn : nanosPerSecond ≤ t.nanos
  · have last := h.leap runsOn
    have one : t.nanos/nanosPerSecond=1 := Nat.div_eq_of_lt_le (by omega) (by have := h.nanos; omega)
    omega
  · have none : t.nanos/nanosPerSecond=0 := Nat.div_eq_of_lt (by omega)
    omega

theorem read?_write {t : Instant} (h : t.Proper) : read? (write t)=some t := by
  obtain ⟨whole,hour,minute,_⟩ := timeOfDay_parts t
  obtain ⟨sixty,leap⟩ := second_of_proper h
  have zone : endsTime ['Z']=true := by decide
  have offset : readOffset? ['Z']=some (0,[]) := by decide
  have blanks : Text.trimLeft ['Z']=['Z'] := by decide
  have fraction : t.nanos%nanosPerSecond<nanosPerSecond := Nat.mod_lt _ (by decide)
  have nanos : t.nanos%nanosPerSecond+t.nanos/nanosPerSecond*nanosPerSecond=t.nanos :=
    Nat.mod_add_div' ..
  have time := readTime?_write hour minute sixty fraction zone
  have seconds : 3600*t.timeOfDay.hour+60*t.timeOfDay.minute+
      (t.timeOfDay.second+t.nanos/nanosPerSecond)-t.nanos/nanosPerSecond=t.secondOfDay := by
    omega
  have day : t.date.toDays*secondsPerDay+t.secondOfDay-0=t.seconds := by
    rw [Instant.date,Date.toDays_ofDays,Instant.secondOfDay]
    simp only [secondsPerDay]
    omega
  rw [leap,nanos,seconds] at time
  rw [write_eq]
  simp only [read?,readDate?_write h.dated,time,blanks,offset,day,Option.bind_eq_bind,
    Option.bind_some,true_or,if_true]
  exact if_pos h.dated

example : write ⟨1483228799,1500000000⟩="2016-12-31T23:59:60.500Z".toList := by decide +kernel

theorem readField?_bounds {low high n : Nat} {text rest : List Char}
    (h : readField? low high text=some (n,rest)) : low ≤ n ∧ n ≤ high := by
  obtain ⟨⟨m,more⟩,_,hm⟩ := Option.bind_eq_some_iff.mp h
  dsimp only at hm
  split at hm
  next within =>
    obtain ⟨rfl,_⟩ := Prod.mk.inj (Option.some.inj hm)
    exact within
  next => cases hm

theorem readFraction?_lt {text rest : List Char} {nanos : Nat}
    (h : readFraction? text=some (nanos,rest)) : nanos<nanosPerSecond := by
  unfold readFraction? at h
  split at h
  next more =>
    simp only [Option.bind_eq_bind] at h
    split at h
    next => cases h
    next =>
      obtain ⟨n,value,e⟩ := Option.bind_eq_some_iff.mp h
      obtain ⟨rfl,_⟩ := Prod.mk.inj (Option.some.inj e)
      have digits : ∀ c∈(more.takeWhile isDigit).take 9,c.isDigit=true := fun c hc =>
        Text.isDigit_iff.mp (List.all_eq_true.mp List.all_takeWhile c (List.mem_of_mem_take hc))
      have length : ((more.takeWhile isDigit).take 9).length ≤ 9 := List.length_take_le ..
      rw [Text.digitsFrom?_eq digits] at value
      have bound := Text.ofDigitChars_lt digits
      rw [Option.some.inj value] at bound
      have scaled := Nat.mul_lt_mul_of_pos_right bound (Nat.pow_pos (n := 9-
        ((more.takeWhile isDigit).take 9).length) (by decide : 0<10))
      rw [← Nat.pow_add,Nat.add_sub_cancel' length] at scaled
      exact scaled
  next =>
    obtain ⟨rfl,_⟩ := Prod.mk.inj (Option.some.inj h)
    decide

/-- A second that runs on is the last of its minute. -/
theorem readTime?_bounds {text rest : List Char} {second nanos : Nat}
    (h : readTime? text=some ((second,nanos),rest)) :
    nanos<2*nanosPerSecond ∧ (nanosPerSecond ≤ nanos → second%60=59) := by
  simp only [readTime?,Option.bind_eq_bind,Option.bind_eq_some_iff,Prod.exists] at h
  obtain ⟨hour,_,_,_,_,minute,_,_,_,_,last,_,hs,fraction,_,hf,e⟩ := h
  obtain ⟨⟨rfl,rfl⟩,_⟩ := Prod.mk.inj (Option.some.inj e)
  have within := (readField?_bounds hs).2
  have part := readFraction?_lt hf
  by_cases runsOn : last=60
  · subst runsOn
    omega
  · have stands : last/60=0 := by omega
    rw [stands]
    omega

theorem readOffsetSize?_minutes {text rest : List Char} {size : Nat}
    (h : readOffsetSize? text=some (size,rest)) : size%60=0 := by
  simp only [readOffsetSize?,Option.bind_eq_bind,Option.bind_eq_some_iff,Prod.exists] at h
  obtain ⟨hours,_,_,minutes,_,_,e⟩ := h
  split at e
  next =>
    obtain ⟨rfl,_⟩ := Prod.mk.inj (Option.some.inj e)
    omega
  next => cases e

theorem readOffset?_minutes {text rest : List Char} {offset : Int}
    (h : readOffset? text=some (offset,rest)) : offset%60=0 := by
  have size {text : List Char} {f : Nat → Int} (hf : ∀ n,n%60=0 → f n%60=0)
      (h : (readOffsetSize? text).map (fun p => (f p.1,p.2))=some (offset,rest)) :
      offset%60=0 := by
    obtain ⟨⟨n,_⟩,hn,e⟩ := Option.map_eq_some_iff.mp h
    obtain ⟨rfl,_⟩ := Prod.mk.inj e
    exact hf n (readOffsetSize?_minutes hn)
  have utc {rest' : List Char} (h : some ((0 : Int),rest')=some (offset,rest)) : offset%60=0 := by
    obtain ⟨rfl,_⟩ := Prod.mk.inj (Option.some.inj h)
    rfl
  unfold readOffset? at h
  split at h
  next => exact utc h
  next =>
    cases text with
    | nil => cases h
    | cons c more =>
      dsimp only at h
      split_ifs at h with zulu east west
      · exact utc h
      · exact size (fun n hn => by omega) h
      · exact size (f := fun n => -(n : Int)) (fun n hn => by omega) h

theorem proper_of_read? {text : List Char} {t : Instant} (h : read? text=some t) :
    t.Proper := by
  obtain ⟨⟨date,_⟩,_,h⟩ := Option.bind_eq_some_iff.mp h
  dsimp only at h
  split at h
  next => cases h
  split at h
  next =>
    simp only [Option.bind_eq_bind,Option.bind_some,Option.bind_eq_some_iff,Prod.exists] at h
    obtain ⟨second,nanos,_,ht,offset,_,ho,h⟩ := h
    split_ifs at h with ended dated
    obtain rfl := Option.some.inj h
    obtain ⟨bound,leap⟩ := readTime?_bounds ht
    refine ⟨dated,bound,?_⟩
    intro runsOn
    have last := leap runsOn
    -- An offset is of whole minutes, so the last second of a minute stays the last one.
    have minutes := readOffset?_minutes ho
    simp only [Instant.timeOfDay,TimeOfDay.ofSeconds,secondsPerDay]
    omega
  next => cases h

end Timestamp

end FleetConsole
