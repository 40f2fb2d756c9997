import Mathlib.Data.List.GetD
import ZoneMinder.Lib.Cells
import ZoneMinder.ZmConf.Agree

namespace ZoneMinder.ZmConf

open Lib

def toInt (n : ℤ) : ℤ := n.bmod (2 ^ 32)

namespace Pointers

def readAt (buffer : Cells Char) (p : ℤ) : Option Char :=
  if 0 ≤ p then buffer.read p.toNat else none

def writeAt (buffer : Cells Char) (p : ℤ) (c : Char) : Option (Cells Char) :=
  if 0 ≤ p then buffer.write p.toNat c else none

theorem lt_of_readAt {buffer : Cells Char} {p : ℤ} {c : Char} (h : readAt buffer p = some c) :
    0 ≤ p ∧ p < buffer.size := by
  rw [readAt, Cells.read] at h
  split_ifs at h
  omega

def strspn (buffer : Cells Char) (set : Char → Bool) (p : ℤ) : Option ℕ :=
  match h : readAt buffer p with
  | none => none
  | some c => if set c then (strspn buffer set (p + 1)).map (· + 1) else some 0
termination_by (buffer.size - p).toNat
decreasing_by
  have hp := lt_of_readAt h
  omega

def strlen (buffer : Cells Char) (p : ℤ) : Option ℕ := strspn buffer (fun c ↦ c ≠ '\x00') p

def strchr (buffer : Cells Char) (d : Char) (p : ℤ) : Option (Option ℤ) := do
  let n ← strspn buffer (fun c ↦ c ≠ '\x00' && c ≠ d) p
  let c ← readAt buffer (p + n)
  some (if c = d then some (p + n) else none)

def cString (buffer : Cells Char) (p : ℤ) : Option Line :=
  match h : readAt buffer p with
  | none => none
  | some c => if c = '\x00' then some [] else (cString buffer (p + 1)).map (c :: ·)
termination_by (buffer.size - p).toNat
decreasing_by
  have hp := lt_of_readAt h
  omega

/-- The blanks and quotes up to `p` are overwritten, from the last one on. -/
def trimEnd (buffer : Cells Char) (p : ℤ) : Option (Cells Char) :=
  match h : readAt buffer p with
  | none => none
  | some c =>
    if blank c || quote c then (writeAt buffer p '\x00').bind fun buffer ↦ trimEnd buffer (p - 1)
    else some buffer
termination_by (p + 1).toNat
decreasing_by
  have hp := lt_of_readAt h
  omega

/-- What is at `p` is overwritten, and so are the blanks before it, but none before the name. -/
def trimName (buffer : Cells Char) (name p : ℤ) : Option (Cells Char) :=
  if h : 0 ≤ p then
    (writeAt buffer p '\x00').bind fun buffer ↦
      if name ≤ p - 1 then
        (readAt buffer (p - 1)).bind fun c ↦
          if blank c then trimName buffer name (p - 1) else some buffer
      else some buffer
  else none
termination_by (p + 1).toNat
decreasing_by omega

def ofChars (l : List Char) : Cells Char := ⟨fun i ↦ l.getD i '\x00', l.length⟩

def assign (line : Cells Char) (linePtr tempPtr : ℤ) : Option Setting := do
  let valPtr := tempPtr + 1
  let line ← trimName line linePtr tempPtr
  let blanks ← strspn line blank valPtr
  let quotes ← strspn line quote valPtr
  let whiteLen := toInt (toInt blanks + quotes)
  let name ← cString line linePtr
  let value ← cString line (valPtr + whiteLen)
  some (name, value)

def parseFrom (line : Cells Char) (linePtr : ℤ) : Option (Option Setting) := do
  let c ← readAt line linePtr
  if c = '\x00' ∨ c = '#' then some none
  else
    let length ← strlen line linePtr
    let line ← trimEnd line (linePtr + length - 1)
    match ← strchr line '=' linePtr with
    | none => (cString line 0).map fun _ ↦ none -- the line is logged
    | some tempPtr => (assign line linePtr tempPtr).map some

/-- A logical line as `process_configfile` goes through its buffer; none where a pointer outside of
it is read or written through. -/
def parseLine (raw : Line) : Option (Option Setting) :=
  let line := ofChars (raw ++ ['\x00'])
  (strspn line blank 0).bind fun whiteLen ↦ parseFrom line (toInt whiteLen)

def processConfigfile (config : Config) (text : Text) : Option Config :=
  (Daemon.join none ((physicalLines text).map getline)).foldlM (fun config raw ↦
    (parseLine raw).map fun setting ↦ (setting.map config.set).getD config) config

def string (raw : Line) : Line := raw.takeWhile fun c ↦ c ≠ '\x00'

def start (raw : Line) : ℤ := toInt ((string raw).takeWhile blank).length

/-- From where it begins it is empty, or a comment. -/
def Skipped (raw : Line) : Prop := ∀ c ∈ ((string raw).drop (start raw).toNat).head?, c = '#'

def body (raw : Line) : Line := ((string raw).rdropWhile edge).drop (start raw).toNat

def skipped (value : Line) : ℤ :=
  toInt ((value.takeWhile blank).length + (value.takeWhile quote).length)

/-- The pointers stay inside of a line: where it is not skipped, its string is not of blanks and
quotes only, and its value does not begin before it. The numbers of blanks and quotes that are
passed at the front are ints, which are negative from `2 ^ 31` on. -/
def Stays (raw : Line) : Prop :=
  0 ≤ start raw ∧ (Skipped raw ∨ (¬∀ c ∈ string raw, edge c) ∧
    ∀ name value, body raw = name ++ '=' :: value → '=' ∉ name →
      0 ≤ start raw + name.length + 1 + skipped value)

section Strings

variable {buffer : Cells Char} {u v w : List Char} {a c : Char} {set : Char → Bool} {p : ℤ}

theorem readAt_ofChars (hp : p = u.length) : readAt (ofChars (u ++ a :: v)) p = some a := by
  subst hp
  rw [readAt, if_pos (Int.natCast_nonneg _), Int.toNat_natCast,
    Cells.read_of_lt (by simp [ofChars])]
  simp [ofChars]

theorem writeAt_ofChars (hp : p = u.length) :
    writeAt (ofChars (u ++ a :: v)) p c = some (ofChars (u ++ c :: v)) := by
  subst hp
  rw [writeAt, if_pos (Int.natCast_nonneg _), Int.toNat_natCast,
    Cells.write_of_lt (by simp [ofChars])]
  refine congrArg some (Cells.eq_of_content (by simp [ofChars]) fun i ↦ ?_)
  simp only [ofChars, Function.update_apply]
  rcases lt_trichotomy i u.length with hi | rfl | hi
  · rw [if_neg hi.ne, List.getD_append _ _ _ _ hi, List.getD_append _ _ _ _ hi]
  · simp
  · obtain ⟨j, rfl⟩ := Nat.exists_eq_add_of_lt hi
    rw [if_neg hi.ne', List.getD_append_right _ _ _ _ hi.le, List.getD_append_right _ _ _ _ hi.le,
      show u.length + j + 1 - u.length = j + 1 by omega, List.getD_cons_succ, List.getD_cons_succ]

theorem strspn_of_readAt (h : readAt buffer p = some c) : strspn buffer set p =
    if set c then (strspn buffer set (p + 1)).map (· + 1) else some 0 := by
  rw [strspn]
  split <;> simp_all

theorem cString_of_readAt (h : readAt buffer p = some c) : cString buffer p =
    if c = '\x00' then some [] else (cString buffer (p + 1)).map (c :: ·) := by
  rw [cString]
  split <;> simp_all

theorem trimEnd_of_readAt (h : readAt buffer p = some c) : trimEnd buffer p =
    if edge c then (writeAt buffer p '\x00').bind fun buffer ↦ trimEnd buffer (p - 1)
    else some buffer := by
  rw [trimEnd]
  split <;> simp_all [edge]

theorem readAt_of_neg (hp : p < 0) : readAt buffer p = none := if_neg hp.not_ge

theorem cString_of_neg (hp : p < 0) : cString buffer p = none := by
  rw [cString]
  split
  · rfl
  next c h =>
    rw [readAt_of_neg hp] at h
    cases h

theorem strspn_ofChars (hp : p = u.length) (hv : ∀ d ∈ v, set d) (ha : set a = false) :
    strspn (ofChars (u ++ (v ++ a :: w))) set p = some v.length := by
  induction v generalizing u p with
  | nil =>
    rw [List.nil_append, strspn_of_readAt (readAt_ofChars hp), ha]
    rfl
  | cons d v ih =>
    have hrest := @ih (u ++ [d]) (p + 1) (by simp [hp]) fun e he ↦ hv e (List.mem_cons_of_mem d he)
    rw [List.append_assoc, List.singleton_append] at hrest
    rw [List.cons_append, strspn_of_readAt (readAt_ofChars hp), hv d List.mem_cons_self, if_pos rfl,
      hrest]
    rfl

theorem cString_ofChars (hp : p = u.length) (hv : '\x00' ∉ v) :
    cString (ofChars (u ++ (v ++ '\x00' :: w))) p = some v := by
  induction v generalizing u p with
  | nil => rw [List.nil_append, cString_of_readAt (readAt_ofChars hp), if_pos rfl]
  | cons d v ih =>
    rw [List.mem_cons, not_or] at hv
    obtain ⟨hd, hv⟩ := hv
    have hrest := @ih (u ++ [d]) (p + 1) (by simp [hp]) hv
    rw [List.append_assoc, List.singleton_append] at hrest
    rw [List.cons_append, cString_of_readAt (readAt_ofChars hp), if_neg (Ne.symm hd), hrest]
    rfl

theorem exists_cString (hp : 0 ≤ p) (hle : p ≤ u.length) :
    ∃ s, cString (ofChars (u ++ '\x00' :: v)) p = some s := by
  obtain ⟨n, rfl⟩ := Int.eq_ofNat_of_zero_le hp
  have hn : n ≤ u.length := by omega
  have hsplit : u ++ '\x00' :: v = u.take n ++ ((u.drop n ++ '\x00' :: v).takeWhile (· ≠ '\x00') ++
      (u.drop n ++ '\x00' :: v).dropWhile (· ≠ '\x00')) := by
    rw [List.takeWhile_append_dropWhile, ← List.append_assoc, List.take_append_drop]
  cases hdrop : (u.drop n ++ '\x00' :: v).dropWhile (· ≠ '\x00') with
  | nil =>
    have hnot := List.dropWhile_eq_nil_iff.mp hdrop '\x00' (by simp)
    simp at hnot
  | cons c w =>
    have hc : c = '\x00' := by
      have hnot := head_dropWhile (p := (· ≠ '\x00')) (a := c) (by rw [hdrop]; rfl)
      simpa using hnot
    rw [hsplit, hdrop, hc]
    refine ⟨_, cString_ofChars (by simp [hn]) fun hmem ↦ ?_⟩
    have hne := List.mem_takeWhile_imp hmem
    simp at hne

/-- The walk back over what ends a line, to a character that stays. -/
theorem trimEnd_ofChars (ha : ¬edge a) (hv : ∀ d ∈ v, edge d) (hp : p = u.length + v.length) :
    trimEnd (ofChars (u ++ a :: (v ++ w))) p =
      some (ofChars (u ++ a :: (List.replicate v.length '\x00' ++ w))) := by
  induction v using List.reverseRecOn generalizing p w with
  | nil =>
    rw [List.nil_append, trimEnd_of_readAt (readAt_ofChars (by simpa using hp)), if_neg ha]
    rfl
  | append_singleton v d ih =>
    have hd : edge d := hv d (by simp)
    have hlist : u ++ a :: (v ++ [d] ++ w) = (u ++ a :: v) ++ d :: w := by simp
    have hlast : p = (u ++ a :: v).length := by
      rw [hp]
      simp
    have hlist' : (u ++ a :: v) ++ '\x00' :: w = u ++ a :: (v ++ '\x00' :: w) := by simp
    rw [hlist, trimEnd_of_readAt (readAt_ofChars hlast), if_pos hd, writeAt_ofChars hlast,
      Option.bind_some, hlist', ih (fun e he ↦ hv e (List.mem_append_left _ he)) (by
        rw [hp]
        simp
        omega)]
    rw [List.length_append, List.length_singleton, List.replicate_succ']
    simp

/-- Where nothing stays the walk gets before the line. -/
theorem trimEnd_eq_none (hv : ∀ d ∈ v, edge d) (hp : p + 1 = v.length) :
    trimEnd (ofChars (v ++ w)) p = none := by
  induction v using List.reverseRecOn generalizing p w with
  | nil =>
    rw [trimEnd]
    split
    · rfl
    next c h =>
      rw [readAt_of_neg (by simp at hp; omega)] at h
      cases h
  | append_singleton v d ih =>
    have hlast : p = v.length := by
      simp at hp
      omega
    rw [List.append_assoc, List.singleton_append, trimEnd_of_readAt (readAt_ofChars hlast),
      if_pos (hv d (by simp)), writeAt_ofChars hlast, Option.bind_some]
    exact ih (fun e he ↦ hv e (List.mem_append_left _ he)) (by omega)

theorem exists_trimName (hp : p = u.length + v.length) :
    ∃ w', trimName (ofChars (u ++ (v ++ a :: w))) u.length p =
      some (ofChars (u ++ (v.rdropWhile blank ++ '\x00' :: (w' ++ w)))) ∧
      (v.rdropWhile blank).length + w'.length = v.length := by
  induction v using List.reverseRecOn generalizing p a w with
  | nil =>
    have hlast : p = u.length := by simpa using hp
    rw [trimName, dif_pos (by omega), List.nil_append, writeAt_ofChars hlast, Option.bind_some,
      if_neg (by omega)]
    exact ⟨[], rfl, rfl⟩
  | append_singleton v d ih =>
    have hlast : p = (u ++ (v ++ [d])).length := by
      rw [hp]
      simp
    have hprev : p - 1 = (u ++ v).length := by
      rw [hlast]
      simp
      omega
    have hlist : u ++ (v ++ [d] ++ a :: w) = (u ++ (v ++ [d])) ++ a :: w := by simp
    have hlist' : (u ++ (v ++ [d])) ++ '\x00' :: w = (u ++ v) ++ d :: '\x00' :: w := by simp
    rw [trimName, dif_pos (by omega), hlist, writeAt_ofChars hlast, Option.bind_some,
      if_pos (by simp at hprev; omega), hlist', readAt_ofChars hprev, Option.bind_some]
    by_cases hd : blank d
    · obtain ⟨w', hw', hlength⟩ :=
        ih (p := p - 1) (a := d) (w := '\x00' :: w) (by simpa using hprev)
      rw [if_pos hd, List.append_assoc, hw', List.rdropWhile_concat_pos _ _ _ hd]
      exact ⟨w' ++ ['\x00'], by simp, by simp; omega⟩
    · rw [if_neg hd, List.rdropWhile_concat_neg _ _ _ hd]
      exact ⟨[], by simp, by simp⟩

theorem strspn_string (hp : p = u.length) (hset : set '\x00' = false) :
    strspn (ofChars (u ++ (v ++ '\x00' :: w))) set p = some (v.takeWhile set).length := by
  cases hdrop : v.dropWhile set with
  | nil =>
    have hall := List.dropWhile_eq_nil_iff.mp hdrop
    rw [strspn_ofChars hp hall hset, List.takeWhile_eq_self_iff.mpr hall]
  | cons a x =>
    have hv : v ++ '\x00' :: w = v.takeWhile set ++ a :: (x ++ '\x00' :: w) := by
      conv_lhs => rw [← List.takeWhile_append_dropWhile (p := set) (l := v), hdrop]
      simp
    have ha := head_dropWhile (p := set) (l := v) (a := a) (by rw [hdrop]; rfl)
    rw [hv, strspn_ofChars hp (fun d hd ↦ List.mem_takeWhile_imp hd) ha]

theorem strchr_of_mem {d : Char} (hp : p = u.length) (hv : ∀ c ∈ v, c ≠ '\x00' ∧ c ≠ d) :
    strchr (ofChars (u ++ (v ++ d :: w))) d p = some (some (p + v.length)) := by
  rw [strchr, strspn_ofChars hp (by simpa using hv) (by simp)]
  simp only [Option.bind_eq_bind, Option.bind_some]
  rw [← List.append_assoc, readAt_ofChars (by simp [hp])]
  simp

theorem strchr_of_not_mem {d : Char} (hp : p = u.length) (hv : ∀ c ∈ v, c ≠ '\x00' ∧ c ≠ d)
    (hd : '\x00' ≠ d) : strchr (ofChars (u ++ (v ++ '\x00' :: w))) d p = some none := by
  rw [strchr, strspn_ofChars hp (by simpa using hv) (by simp)]
  simp only [Option.bind_eq_bind, Option.bind_some]
  rw [← List.append_assoc, readAt_ofChars (by simp [hp])]
  simp [hd]

theorem toInt_eq {n : ℤ} (hn : 0 ≤ n) (hlt : n < 2 ^ 31) : toInt n = n := by
  unfold toInt
  exact Int.bmod_eq_of_le_mul_two (by omega) (by omega)

theorem toInt_le {n : ℤ} (hn : 0 ≤ n) : toInt n ≤ n := by
  unfold toInt
  rw [Int.bmod_def]
  split_ifs <;> omega

theorem toInt_add (m n : ℤ) : toInt (toInt m + n) = toInt (m + n) := by
  unfold toInt
  exact Int.bmod_add_bmod

theorem exists_assign {name : Line} (value : Line) (hp : p = u.length) (hname : '\x00' ∉ name) :
    ∃ x : List Char, x.length = u.length + name.length + 1 ∧
      assign (ofChars (u ++ (name ++ '=' :: (value ++ '\x00' :: w)))) p (p + name.length) =
        (cString (ofChars (x ++ (value ++ '\x00' :: w))) (x.length + skipped value)).map
          fun s ↦ (name.rdropWhile blank, s) := by
  obtain ⟨w', hw', hlength⟩ := exists_trimName (u := u) (v := name) (a := '=')
    (w := value ++ '\x00' :: w) (p := p + name.length) (by rw [hp])
  rw [← hp] at hw'
  obtain ⟨x, hx⟩ : ∃ x, u ++ (name.rdropWhile blank ++ '\x00' :: w') = x := ⟨_, rfl⟩
  have hbuffer : u ++ (name.rdropWhile blank ++ '\x00' :: (w' ++ (value ++ '\x00' :: w))) =
      x ++ (value ++ '\x00' :: w) := by
    rw [← hx]
    simp
  have hxlength : x.length = u.length + name.length + 1 := by
    rw [← hx]
    simp
    omega
  have hval : p + name.length + 1 = x.length := by
    rw [hxlength, hp]
    push_cast
    rfl
  have hstring : cString (ofChars (x ++ (value ++ '\x00' :: w))) p =
      some (name.rdropWhile blank) := by
    rw [← hbuffer]
    refine cString_ofChars hp fun hmem ↦ hname ?_
    exact (List.rdropWhile_prefix blank name).subset hmem
  refine ⟨x, hxlength, ?_⟩
  rw [assign, hw', hbuffer, hval]
  simp only [Option.bind_eq_bind, Option.bind_some]
  rw [strspn_string rfl rfl, strspn_string rfl rfl, Option.bind_some, Option.bind_some, toInt_add,
    ← skipped, hstring, Option.bind_some, Option.map_eq_bind]
  rfl

theorem skip_le (value : Line) :
    (value.takeWhile blank).length + (value.takeWhile quote).length ≤ value.length := by
  have hblank := (List.takeWhile_prefix blank (l := value)).length_le
  have hquote := (List.takeWhile_prefix quote (l := value)).length_le
  rcases takeWhile_blank_or_quote value with hnil | hnil
  · rwa [hnil, List.length_nil, Nat.zero_add]
  · rwa [hnil, List.length_nil, Nat.add_zero]

theorem skipped_le (value : Line) : skipped value ≤ value.length := by
  have hle : skipped value ≤ (value.takeWhile blank).length + (value.takeWhile quote).length :=
    toInt_le (by omega)
  have hskip := skip_le value
  omega

/-- A value is read exactly if it does not begin before the line. -/
theorem assign_isSome_iff {name value : Line} (hp : p = u.length) (hname : '\x00' ∉ name) :
    (assign (ofChars (u ++ (name ++ '=' :: (value ++ '\x00' :: w)))) p (p + name.length)).isSome ↔
      0 ≤ p + name.length + 1 + skipped value := by
  obtain ⟨x, hx, hassign⟩ := exists_assign (w := w) value hp hname
  have hval : p + name.length + 1 = x.length := by
    rw [hx, hp]
    push_cast
    rfl
  rw [hassign, Option.isSome_map, hval]
  constructor
  · intro h
    by_contra hneg
    rw [cString_of_neg (not_le.mp hneg)] at h
    cases h
  · intro h
    have hle := skipped_le value
    rw [← List.append_assoc]
    obtain ⟨s, hs⟩ := exists_cString (u := x ++ value) (v := w) h (by simp; omega)
    rw [hs]
    rfl

theorem assign_eq {name value : Line} (hp : p = u.length) (hname : '\x00' ∉ name)
    (hvalue : '\x00' ∉ value) (hshort : value.length < 2 ^ 31) :
    assign (ofChars (u ++ (name ++ '=' :: (value ++ '\x00' :: w)))) p (p + name.length) =
      some (name.rdropWhile blank, Daemon.skip value) := by
  obtain ⟨x, hx, hassign⟩ := exists_assign (w := w) value hp hname
  have hskip := skip_le value
  obtain ⟨m, hm⟩ : ∃ m, (value.takeWhile blank).length + (value.takeWhile quote).length = m :=
    ⟨_, rfl⟩
  have hskipped : skipped value = m := by
    rw [skipped, ← hm, toInt_eq (by omega) (by omega)]
    push_cast
    rfl
  have hsplit : x ++ (value ++ '\x00' :: w) =
      (x ++ value.take m) ++ (Daemon.skip value ++ '\x00' :: w) := by
    rw [Daemon.skip, hm, List.append_assoc, ← List.append_assoc (value.take m),
      List.take_append_drop]
  rw [hassign, hskipped, hsplit, cString_ofChars (by simp; omega) fun hmem ↦ hvalue ?_]
  · rfl
  · exact (List.drop_sublist _ _).mem hmem

end Strings

section Lines

variable {raw w : Line}

theorem exists_string (raw : Line) : ∃ w, raw ++ ['\x00'] = string raw ++ '\x00' :: w := by
  conv =>
    enter [1, w, 1, 1]
    rw [← List.takeWhile_append_dropWhile (p := fun c ↦ c ≠ '\x00') (l := raw)]
  cases hdrop : raw.dropWhile fun c ↦ c ≠ '\x00' with
  | nil => exact ⟨[], by rw [List.append_nil, string]⟩
  | cons c w =>
    have hnot := head_dropWhile (p := fun c ↦ c ≠ '\x00') (a := c) (by rw [hdrop]; rfl)
    obtain rfl : c = '\x00' := by simpa using hnot
    exact ⟨w ++ ['\x00'], by rw [string, List.append_assoc, List.cons_append]⟩

theorem not_mem_string : '\x00' ∉ string raw := by
  intro hmem
  have hne := List.mem_takeWhile_imp hmem
  simp at hne

theorem not_mem_body (raw : Line) : '\x00' ∉ body raw := fun hmem ↦
  not_mem_string ((List.rdropWhile_prefix _ _).subset ((List.drop_sublist _ _).mem hmem))

theorem start_le (raw : Line) : start raw ≤ ((string raw).takeWhile blank).length :=
  toInt_le (Int.natCast_nonneg _)

inductive Parsed (raw : Line) : Option (Option Setting) → Prop
  | before (hstart : start raw < 0) : Parsed raw none
  | skipped (hstart : 0 ≤ start raw) (hskipped : Skipped raw) : Parsed raw (some none)
  | quotes (hstart : 0 ≤ start raw) (hskipped : ¬Skipped raw) (hedge : ∀ c ∈ string raw, edge c) :
    Parsed raw none
  | noValue (hstart : 0 ≤ start raw) (hskipped : ¬Skipped raw) (hedge : ¬∀ c ∈ string raw, edge c)
    (hbody : '=' ∉ body raw) : Parsed raw (some none)
  | assigned (hstart : 0 ≤ start raw) (hskipped : ¬Skipped raw) (hedge : ¬∀ c ∈ string raw, edge c)
    {u name value w : Line} (hbody : body raw = name ++ '=' :: value) (hname : '=' ∉ name)
    (hu : start raw = u.length) :
    Parsed raw ((assign (ofChars (u ++ (name ++ '=' :: (value ++ '\x00' :: w)))) (start raw)
      (start raw + name.length)).map some)

theorem replicate_append_cons (n : ℕ) (c : Char) (w : Line) :
    List.replicate n c ++ c :: w = c :: (List.replicate n c ++ w) := by
  rw [← List.cons_append, ← List.replicate_succ, List.replicate_succ', List.append_assoc,
    List.singleton_append]

/-- Of a line with something else than blanks and quotes in it the rest is a string again. -/
theorem exists_trimEnd {p : ℤ} (hedge : ¬∀ c ∈ string raw, edge c)
    (hp : p + 1 = (string raw).length) :
    ∃ w', trimEnd (ofChars (string raw ++ '\x00' :: w)) p =
        some (ofChars ((string raw).rdropWhile edge ++ '\x00' :: w')) ∧
      ((string raw).takeWhile blank).length ≤ ((string raw).rdropWhile edge).length := by
  obtain ⟨x, a, y, hxy, ha, hy⟩ := exists_last_not hedge
  have htake : (string raw).takeWhile blank = x.takeWhile blank := by
    rw [hxy, takeWhile_append_stop fun hblank ↦ ha (edge_of_blank hblank)]
  have hprefix := (List.takeWhile_prefix blank (l := x)).length_le
  rw [htake, hxy, rdropWhile_of_last ha hy]
  refine ⟨List.replicate y.length '\x00' ++ w, ?_, by simp; omega⟩
  have htrim := trimEnd_ofChars (u := x) (w := '\x00' :: w) (p := p) ha hy (by
    rw [hxy] at hp
    simp at hp
    omega)
  rw [List.append_assoc, List.cons_append, htrim]
  rw [replicate_append_cons, List.append_assoc, List.singleton_append]

theorem parseLine_eq (hw : raw ++ ['\x00'] = string raw ++ '\x00' :: w) :
    parseLine raw = parseFrom (ofChars (string raw ++ '\x00' :: w)) (start raw) := by
  have hspan : strspn (ofChars (string raw ++ '\x00' :: w)) blank 0 =
      some ((string raw).takeWhile blank).length := strspn_string (u := []) rfl rfl
  rw [parseLine, hw, hspan, Option.bind_some, start]

theorem parseFrom_of_skip {line : Cells Char} {p : ℤ} {c : Char} (hc : readAt line p = some c)
    (hskip : c = '\x00' ∨ c = '#') : parseFrom line p = some none := by
  rw [parseFrom, hc]
  simp only [Option.bind_eq_bind, Option.bind_some, if_pos hskip]

theorem parseFrom_of_cons {u v w : List Char} {c : Char} {p : ℤ} (hp : p = u.length)
    (hc : c ≠ '#') (hv : '\x00' ∉ c :: v) :
    parseFrom (ofChars (u ++ (c :: v ++ '\x00' :: w))) p =
      (trimEnd (ofChars (u ++ (c :: v ++ '\x00' :: w))) (p + (c :: v).length - 1)).bind fun line ↦
        (strchr line '=' p).bind fun
          | none => (cString line 0).map fun _ ↦ none
          | some tempPtr => (assign line p tempPtr).map some := by
  have hstrlen : strlen (ofChars (u ++ (c :: v ++ '\x00' :: w))) p = some (c :: v).length :=
    strspn_ofChars hp (fun d hd ↦ by simpa using ne_of_mem_of_not_mem hd hv) (by simp)
  have hread : readAt (ofChars (u ++ (c :: v ++ '\x00' :: w))) p = some c := by
    rw [List.cons_append]
    exact readAt_ofChars hp
  have hnot : ¬(c = '\x00' ∨ c = '#') := by
    rw [List.mem_cons, not_or] at hv
    exact not_or.mpr ⟨Ne.symm hv.1, hc⟩
  rw [parseFrom, hread]
  simp only [Option.bind_eq_bind, Option.bind_some, if_neg hnot, hstrlen]

theorem parsed_of_cons {c : Char} {v : Line} (hstart : 0 ≤ start raw)
    (hv : (string raw).drop (start raw).toNat = c :: v) (hc : c ≠ '#')
    (hw : raw ++ ['\x00'] = string raw ++ '\x00' :: w) : Parsed raw (parseLine raw) := by
  have hskipped : ¬Skipped raw := by
    rw [Skipped, hv]
    simpa using hc
  have hle := start_le raw
  have hprefix := (List.takeWhile_prefix blank (l := string raw)).length_le
  have hsplit : string raw = (string raw).take (start raw).toNat ++ c :: v := by
    rw [← hv, List.take_append_drop]
  have hp : start raw = ((string raw).take (start raw).toNat).length := by
    rw [List.length_take]
    omega
  have hparse := parseFrom_of_cons (w := w) hp hc fun hmem ↦ by
    rw [← hv] at hmem
    exact not_mem_string ((List.drop_sublist _ _).mem hmem)
  rw [← List.append_assoc, ← hsplit, ← parseLine_eq hw] at hparse
  have hlast : start raw + (c :: v).length - 1 + 1 = (string raw).length := by
    rw [← hv, List.length_drop]
    omega
  by_cases hedge : ∀ c ∈ string raw, edge c
  · rw [hparse, trimEnd_eq_none hedge hlast]
    exact .quotes hstart hskipped hedge
  · obtain ⟨w', htrim, hlength⟩ := exists_trimEnd (w := w) hedge hlast
    have hkept : (string raw).rdropWhile edge =
        ((string raw).rdropWhile edge).take (start raw).toNat ++ body raw := by
      rw [body, List.take_append_drop]
    have hp' : start raw = (((string raw).rdropWhile edge).take (start raw).toNat).length := by
      rw [List.length_take]
      omega
    have hnul : ∀ c ∈ body raw, c ≠ '\x00' := fun c hc ↦ ne_of_mem_of_not_mem hc (not_mem_body raw)
    rw [htrim, Option.bind_some, hkept, List.append_assoc] at hparse
    by_cases hmem : '=' ∈ body raw
    · obtain ⟨name, value, hbody, hname⟩ := List.eq_append_cons_of_mem hmem
      have hfind : ∀ c ∈ name, c ≠ '\x00' ∧ c ≠ '=' := fun c hc ↦
        ⟨hnul c (by simp [hbody, hc]), ne_of_mem_of_not_mem hc hname⟩
      rw [hbody, List.append_assoc, List.cons_append, strchr_of_mem hp' hfind,
        Option.bind_some] at hparse
      rw [hparse]
      exact .assigned hstart hskipped hedge hbody hname hp'
    · have hfind : ∀ c ∈ body raw, c ≠ '\x00' ∧ c ≠ '=' := fun c hc ↦
        ⟨hnul c hc, ne_of_mem_of_not_mem hc hmem⟩
      obtain ⟨s, hs⟩ := exists_cString (p := 0) (v := w')
        (u := ((string raw).rdropWhile edge).take (start raw).toNat ++ body raw) le_rfl (by omega)
      rw [strchr_of_not_mem hp' hfind (by simp), Option.bind_some, ← List.append_assoc,
        hs] at hparse
      rw [hparse]
      exact .noValue hstart hskipped hedge hmem

theorem parsed (raw : Line) : Parsed raw (parseLine raw) := by
  obtain ⟨w, hw⟩ := exists_string raw
  have hparse := parseLine_eq hw
  rcases lt_or_ge (start raw) 0 with hneg | hstart
  · rw [hparse, parseFrom, readAt_of_neg hneg]
    exact .before hneg
  have hle := start_le raw
  have hprefix := (List.takeWhile_prefix blank (l := string raw)).length_le
  have hsplit : string raw ++ '\x00' :: w = (string raw).take (start raw).toNat ++
      ((string raw).drop (start raw).toNat ++ '\x00' :: w) := by
    rw [← List.append_assoc, List.take_append_drop]
  have hp : start raw = ((string raw).take (start raw).toNat).length := by
    rw [List.length_take]
    omega
  rw [hsplit] at hparse
  cases hv : (string raw).drop (start raw).toNat with
  | nil =>
    rw [hv, List.nil_append] at hparse
    rw [hparse, parseFrom_of_skip (readAt_ofChars hp) (.inl rfl)]
    exact .skipped hstart (by simp [Skipped, hv])
  | cons c v =>
    by_cases hc : c = '#'
    · rw [hv, List.cons_append] at hparse
      rw [hparse, parseFrom_of_skip (readAt_ofChars hp) (.inr hc)]
      exact .skipped hstart (by simp [Skipped, hv, hc])
    · exact parsed_of_cons hstart hv hc hw

theorem split_unique {name value name' value' : Line} (hname : '=' ∉ name) (hname' : '=' ∉ name')
    (h : name ++ '=' :: value = name' ++ '=' :: value') : name = name' ∧ value = value' := by
  have htake := congrArg (List.takeWhile (· ≠ '=')) h
  have hall : ∀ c ∈ name, decide (c ≠ '=') := fun c hc ↦ by
    simpa using ne_of_mem_of_not_mem hc hname
  have hall' : ∀ c ∈ name', decide (c ≠ '=') := fun c hc ↦ by
    simpa using ne_of_mem_of_not_mem hc hname'
  rw [takeWhile_append_stop (by simp), takeWhile_append_stop (by simp),
    List.takeWhile_eq_self_iff.mpr hall, List.takeWhile_eq_self_iff.mpr hall'] at htake
  rw [htake] at h
  exact ⟨htake, (List.cons_inj_right _).mp (List.append_cancel_left h)⟩

theorem not_mem_name {name value : Line} (hbody : body raw = name ++ '=' :: value) :
    '\x00' ∉ name := by
  have hnul := not_mem_body raw
  rw [hbody, List.mem_append, not_or] at hnul
  exact hnul.1

theorem parseLine_isSome_iff (raw : Line) : (parseLine raw).isSome ↔ Stays raw := by
  have hparsed := parsed raw
  revert hparsed
  generalize parseLine raw = result
  intro hparsed
  cases hparsed with
  | before hstart => exact iff_of_false (by simp) fun h ↦ absurd h.1 hstart.not_ge
  | skipped hstart hskipped => exact iff_of_true rfl ⟨hstart, .inl hskipped⟩
  | quotes hstart hskipped hedge =>
    refine iff_of_false (by simp) fun h ↦ ?_
    rcases h.2 with hskip | ⟨hnot, -⟩
    · exact hskipped hskip
    · exact hnot hedge
  | noValue hstart hskipped hedge hbody =>
    refine iff_of_true rfl ⟨hstart, .inr ⟨hedge, fun name value h ↦ ?_⟩⟩
    rw [h] at hbody
    simp at hbody
  | @assigned hstart hskipped hedge u name value w hbody hname hu =>
    rw [Option.isSome_map, assign_isSome_iff hu (not_mem_name hbody)]
    constructor
    · intro h
      refine ⟨hstart, .inr ⟨hedge, fun name' value' hbody' hname' ↦ ?_⟩⟩
      obtain ⟨rfl, rfl⟩ := split_unique hname hname' (hbody.symm.trans hbody')
      exact h
    · intro h
      exact (h.2.resolve_left hskipped).2 name value hbody hname

theorem length_string (raw : Line) : (string raw).length ≤ raw.length :=
  (List.takeWhile_prefix _).length_le

theorem start_eq (hshort : raw.length < 2 ^ 31) :
    start raw = ((string raw).takeWhile blank).length := by
  have hlength := length_string raw
  have hprefix := (List.takeWhile_prefix blank (l := string raw)).length_le
  exact toInt_eq (Int.natCast_nonneg _) (by omega)

theorem drop_start (hshort : raw.length < 2 ^ 31) :
    (string raw).drop (start raw).toNat = (string raw).dropWhile blank := by
  rw [start_eq hshort, Int.toNat_natCast, drop_length_takeWhile]

theorem skipped_iff (hshort : raw.length < 2 ^ 31) : Skipped raw ↔
    (string raw).dropWhile blank = [] ∨ ((string raw).dropWhile blank).head? = some '#' := by
  rw [Skipped, drop_start hshort]
  cases (string raw).dropWhile blank <;> simp

theorem body_eq (hshort : raw.length < 2 ^ 31) (hedge : ¬∀ c ∈ string raw, edge c) :
    body raw = ((string raw).dropWhile blank).rdropWhile edge := by
  obtain ⟨x, a, y, hxy, ha, hy⟩ := exists_last_not hedge
  have hblank : ¬blank a := fun h ↦ ha (edge_of_blank h)
  have hstart : (start raw).toNat = (x.takeWhile blank).length := by
    rw [start_eq hshort, Int.toNat_natCast, hxy, takeWhile_append_stop hblank]
  rw [body, hstart, hxy, rdropWhile_of_last ha hy, dropWhile_append_stop hblank,
    rdropWhile_of_last ha hy, ← takeWhile_append_stop hblank x [], drop_length_takeWhile,
    dropWhile_append_stop hblank]

theorem length_body (raw : Line) : (body raw).length ≤ raw.length := by
  have hlength := length_string raw
  have hprefix := (List.rdropWhile_prefix edge (l := string raw)).length_le
  rw [body, List.length_drop]
  omega

/-- On a line that is no longer than an int counts, only what consists of blanks and quotes leads
out of it. -/
theorem stays_iff (hshort : raw.length < 2 ^ 31) :
    Stays raw ↔ Skipped raw ∨ ∃ c ∈ string raw, ¬edge c := by
  have hstart : 0 ≤ start raw := by
    rw [start_eq hshort]
    exact Int.natCast_nonneg _
  constructor
  · rintro ⟨-, hskipped | ⟨hedge, -⟩⟩
    · exact .inl hskipped
    · exact .inr (by simpa using hedge)
  · intro h
    refine ⟨hstart, h.imp_right fun hedge ↦ ⟨by simpa using hedge, fun name value hbody _ ↦ ?_⟩⟩
    have hlength := length_body raw
    have hskip := skip_le value
    have hskipped : 0 ≤ skipped value := by
      rw [hbody, List.length_append, List.length_cons] at hlength
      rw [skipped, toInt_eq (by omega) (by omega)]
      omega
    omega

theorem setting_of_not_skipped (hshort : raw.length < 2 ^ 31) (hskipped : ¬Skipped raw)
    (hedge : ¬∀ c ∈ string raw, edge c) : Daemon.setting raw =
      match (body raw).dropWhile (fun c ↦ c ≠ '=') with
      | [] => none
      | _ :: value =>
        some (((body raw).takeWhile (fun c ↦ c ≠ '=')).rdropWhile blank, Daemon.skip value) := by
  have hline : ((string raw).dropWhile blank).rdropWhile (fun c ↦ blank c || quote c) = body raw :=
    (body_eq hshort hedge).symm
  rw [Daemon.setting, ← string, if_neg ((skipped_iff hshort).not.mp hskipped)]
  exact hline ▸ by cases (body raw).dropWhile fun c ↦ c ≠ '=' <;> rfl

/-- And of a line that it stays inside it reads the name and the value. -/
theorem parseLine_eq_setting (hshort : raw.length < 2 ^ 31) (h : Stays raw) :
    parseLine raw = some (Daemon.setting raw) := by
  have hparsed := parsed raw
  have hsome := (parseLine_isSome_iff raw).mpr h
  revert hparsed hsome
  generalize parseLine raw = result
  intro hparsed hsome
  cases hparsed with
  | before => cases hsome
  | quotes => cases hsome
  | skipped _ hskipped => rw [Daemon.setting, ← string, if_pos ((skipped_iff hshort).mp hskipped)]
  | noValue _ hskipped hedge hbody =>
    have hdrop : (body raw).dropWhile (fun c ↦ c ≠ '=') = [] := by
      rw [List.dropWhile_eq_nil_iff]
      exact fun c hc ↦ by simpa using ne_of_mem_of_not_mem hc hbody
    rw [setting_of_not_skipped hshort hskipped hedge, hdrop]
  | @assigned hstart hskipped hedge u name value w hbody hname hu =>
    have hall : ∀ c ∈ name, decide (c ≠ '=') := fun c hc ↦ by
      simpa using ne_of_mem_of_not_mem hc hname
    have hlength := length_body raw
    have hvalue := not_mem_body raw
    rw [hbody] at hlength hvalue
    simp only [List.length_append, List.length_cons] at hlength
    simp only [List.mem_append, List.mem_cons, not_or] at hvalue
    rw [setting_of_not_skipped hshort hskipped hedge, hbody, dropWhile_append_stop (by simp),
      takeWhile_append_stop (by simp), List.dropWhile_eq_nil_iff.mpr hall,
      List.takeWhile_eq_self_iff.mpr hall, assign_eq hu hvalue.1 hvalue.2.2 (by omega)]
    rfl

end Lines

/-- The daemons stay inside of every line of a file exactly if each of its logical lines is such. -/
theorem processConfigfile_isSome_iff (config : Config) (text : Text) :
    (processConfigfile config text).isSome ↔
      ∀ raw ∈ Daemon.join none ((physicalLines text).map getline), Stays raw := by
  rw [processConfigfile]
  induction Daemon.join none ((physicalLines text).map getline) generalizing config with
  | nil => exact iff_of_true rfl fun raw h ↦ absurd h List.not_mem_nil
  | cons raw lines ih =>
    rw [List.foldlM_cons, List.forall_mem_cons, ← parseLine_isSome_iff]
    cases hparse : parseLine raw with
    | none => exact iff_of_false (by simp) fun h ↦ by simp at h
    | some setting =>
      rw [← ih ((setting.map config.set).getD config)]
      simp

/-- A file whose lines are short enough is read as far as the characters tell. -/
theorem processConfigfile_eq (config : Config) {text : Text}
    (h : ∀ raw ∈ Daemon.join none ((physicalLines text).map getline),
      raw.length < 2 ^ 31 ∧ (Skipped raw ∨ ∃ c ∈ string raw, ¬edge c)) :
    processConfigfile config text = some (Daemon.processConfigfile config text) := by
  rw [processConfigfile, Daemon.processConfigfile, Daemon.settings]
  revert h
  induction Daemon.join none ((physicalLines text).map getline) generalizing config with
  | nil => exact fun _ ↦ rfl
  | cons raw lines ih =>
    intro h
    obtain ⟨⟨hshort, hline⟩, hlines⟩ := List.forall_mem_cons.mp h
    have hparse := parseLine_eq_setting hshort ((stays_iff hshort).mpr hline)
    rw [List.foldlM_cons, hparse, Option.map_some, Option.bind_eq_bind, Option.bind_some,
      ih _ hlines]
    cases hsetting : Daemon.setting raw with
    | none => rw [List.filterMap_cons_none hsetting]; rfl
    | some setting => rw [List.filterMap_cons_some hsetting]; rfl

/-- Over a line that is one quote the walk back from its end goes on before it. -/
theorem not_processConfigfile_isSome :
    ¬∀ (config : Config) (text : Text), (processConfigfile config text).isSome := by
  intro h
  have hlines : Daemon.join none ((physicalLines ['"', '\n']).map getline) = [['"']] := by decide
  have hstays : ¬Stays ['"'] := by
    rw [stays_iff (by decide), skipped_iff (by decide)]
    simp [string, edge, blank, quote]
  have hparse : parseLine ['"'] = none :=
    Option.not_isSome_iff_eq_none.mp ((parseLine_isSome_iff _).not.mpr hstays)
  have hfile := h (fun _ ↦ none) ['"', '\n']
  rw [processConfigfile, hlines, List.foldlM_cons, hparse] at hfile
  cases hfile

end Pointers

end ZoneMinder.ZmConf
