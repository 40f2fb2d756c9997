import ZoneMinder.Auth.HashCache
import ZoneMinder.Php
import Mathlib.Data.List.Basic
import Mathlib.Data.List.TakeWhile

namespace ZoneMinder.Auth

/-- The fields of a broken-down local time; the month counts from 0, the year from 1900. -/
structure LocalTime where
  hour : ℤ
  mday : ℤ
  mon : ℤ
  year : ℤ
  deriving DecidableEq

/-- The date of a day counted from the first of January 1970. Years are taken to start in March,
so that a leap day ends its year, its four years and its century. -/
def dateOfDay (day : ℤ) : ℤ × ℤ × ℤ :=
  let z := day + 719468
  let r400 := z % 146097
  let century := min (r400 / 36524) 3
  let r100 := r400 - century * 36524
  let r4 := r100 % 1461
  let y := min (r4 / 365) 3
  let yday := r4 - y * 365
  let month := (5 * yday + 2) / 153
  let mday := yday - (153 * month + 2) / 5 + 1
  let year := z / 146097 * 400 + century * 100 + r100 / 1461 * 4 + y
  (mday, if month < 10 then month + 2 else month - 10, if month < 10 then year else year + 1)

/-- Local time is a constant number of seconds ahead. -/
def localtime (utcOffset time : ℤ) : LocalTime :=
  let seconds := time + utcOffset
  let date := dateOfDay (seconds / 86400)
  ⟨seconds % 86400 / 3600, date.1, date.2.1, date.2.2 - 1900⟩

/-- A number as it is printed, without leading zeros. -/
def printed : ℤ → List Char
  | .ofNat n => Nat.toDigits 10 n
  | .negSucc n => '-' :: Nat.toDigits 10 (n + 1)

def LocalTime.stamp (tm : LocalTime) : List Char :=
  printed tm.hour ++ printed tm.mday ++ printed tm.mon ++ printed tm.year

/-- MD5 as a hexadecimal text, taken to have no collisions. -/
structure Md5 where
  hex : List Char → List Char
  injective : Function.Injective hex
  nonempty : ∀ text, Php.isEmpty (hex text) = false

structure HashConfig extends AuthConfig where
  hashSecret : List Char
  utcOffset : ℤ

structure AuthUser where
  username : List Char
  password : List Char
  enabled : Bool
  deriving DecidableEq

variable (md5 : Md5) (config : HashConfig)

/-- What the secret is followed by, all fields run together. -/
def signedText (user : AuthUser) (remoteAddr : Addr) (time : ℤ) : List Char :=
  user.username ++ user.password ++ remoteAddr ++ (localtime config.utcOffset time).stamp

def authKey (user : AuthUser) (remoteAddr : Addr) (time : ℤ) : List Char :=
  config.hashSecret ++ signedText config user remoteAddr time

def calculateAuthHash (user : AuthUser) (remoteAddr : Addr) (time : ℤ) : List Char :=
  md5.hex (authKey config user remoteAddr time)

/-- The hash is the user's for one of the last hours. -/
def hashMatches (hours : ℕ) (user : AuthUser) (remoteAddr : Addr) (now : ℤ) (auth : List Char) :
    Bool :=
  (List.range hours).any (fun i ↦
    md5.hex (authKey config user remoteAddr (now - 3600 * i)) = auth)

namespace Daemon

/-- Without a value for the lifetime two hours are tried. -/
def hashHours : ℕ := if config.hashTtl = 0 then 2 else config.hashTtl

def userRows (users : List AuthUser) (named : List Char → Bool) (username : List Char) :
    List AuthUser :=
  users.filter (fun user ↦ user.enabled && (username.isEmpty || named user.username))

/-- `named` is how the database compares a user's name with the one of the request. -/
def zmLoadAuthUser (users : List AuthUser) (named : List Char → Bool) (username : List Char)
    (remoteAddr : Addr) (now : ℤ) (auth : List Char) : Option AuthUser :=
  (userRows users named username).find? (fun user ↦
    hashMatches md5 config (hashHours config) user remoteAddr now auth)

end Daemon

namespace Web

/-- The user of the request, or of the session, is tried first and all others after. -/
def userRows (users : List AuthUser) (named : List Char → Bool) (filterUser : Bool) :
    List AuthUser :=
  if filterUser then
    users.filter (fun user ↦ user.enabled && named user.username) ++
      users.filter (fun user ↦ user.enabled && !named user.username)
  else users.filter AuthUser.enabled

/-- With the live address as the only candidate. -/
def getAuthUser (users : List AuthUser) (named : List Char → Bool) (filterUser : Bool)
    (remoteAddr : Addr) (now : ℤ) (auth : List Char) : Option AuthUser :=
  if config.optUseAuth ∧ config.relayHashed ∧ Php.isEmpty auth = false then
    (userRows users named filterUser).find? (fun user ↦
      hashMatches md5 config config.hashTtl user remoteAddr now auth)
  else none

end Web

/-- The start of the local hour. -/
def hourStart (time : ℤ) : ℤ := time - (time + config.utcOffset) % 3600

/-- Within the lifetime, counted from the start of the hour of issue. -/
def InLifetime (hours : ℕ) (issued now : ℤ) : Prop :=
  hourStart config issued ≤ now ∧ now < hourStart config issued + 3600 * hours

instance (hours : ℕ) (issued now : ℤ) : Decidable (InLifetime config hours issued now) :=
  inferInstanceAs (Decidable (_ ∧ _))

/-- A hash that is accepted was issued to the user it is accepted for, for the same address, and
its lifetime is not over. -/
def Identifies (loaded : Option AuthUser) (hours : ℕ) (user : AuthUser) (addr : Addr)
    (issued : ℤ) (addr' : Addr) (now : ℤ) : Prop :=
  ∀ user' ∈ loaded, addr' = addr ∧ user' = user ∧ InLifetime config hours issued now

/-- The longer of two fields goes on after the shorter one; what it goes on with stands before the
next field. -/
def Over (field field' : List Char) (next : List Char → List Char → Prop) : Prop :=
  field <+: field' ∧ next [] (field'.drop field.length) ∨
    field' <+: field ∧ next (field.drop field'.length) []

instance (field field' : List Char) (next : List Char → List Char → Prop)
    [∀ z z', Decidable (next z z')] : Decidable (Over field field' next) :=
  inferInstanceAs (Decidable (_ ∨ _))

/-- A row of digits: how many there are, and the number they make. -/
structure Digits where
  width : ℕ
  value : ℕ
  deriving DecidableEq

def Digits.append (a b : Digits) : Digits :=
  ⟨a.width + b.width, a.value * 10 ^ b.width + b.value⟩

def Digits.ofNat (n : ℕ) : Digits := ⟨(Nat.toDigits 10 n).length, n⟩

def Digits.read (text : List Char) : Digits := ⟨text.length, Nat.ofDigitChars 10 text 0⟩

/-- Hour, day and month in one row. -/
def LocalTime.moment (tm : LocalTime) : Digits :=
  ((Digits.ofNat tm.hour.toNat).append (.ofNat tm.mday.toNat)).append (.ofNat tm.mon.toNat)

/-- The first time, after what an address goes on with, makes the number of the second one. Before
1900 a sign stands in front of the year. -/
def LocalTime.Makes (z : List Char) (tm tm' : LocalTime) : Prop :=
  if tm.year < 0 then
    tm.year = tm'.year ∧ z.all Char.isDigit ∧ (Digits.read z).append tm.moment = tm'.moment
  else if tm'.year < 0 then
    let back := z.dropWhile Char.isDigit
    back.head? = some '-' ∧ Digits.read (z.takeWhile Char.isDigit) = tm'.moment ∧
      back.tail.all Char.isDigit ∧
        ((Digits.read back.tail).append tm.moment).append (.ofNat tm.year.natAbs) =
          .ofNat tm'.year.natAbs
  else
    z.all Char.isDigit ∧
      ((Digits.read z).append tm.moment).append (.ofNat tm.year.natAbs) =
        tm'.moment.append (.ofNat tm'.year.natAbs)

instance (z : List Char) (tm tm' : LocalTime) : Decidable (tm.Makes z tm') :=
  inferInstanceAs (Decidable (ite _ _ _))

/-- One row of characters can be cut into the fields of either: a name goes on with what the other
password starts with, an address with the digits of the other hour, the digits of hour, day, month
and year are divided otherwise, or all is the same. -/
def CutAlike (user : AuthUser) (addr : Addr) (tm : LocalTime) (user' : AuthUser) (addr' : Addr)
    (tm' : LocalTime) : Prop :=
  Over user.username user'.username fun x x' ↦
    Over (x ++ user.password) (x' ++ user'.password) fun y y' ↦
      Over (y ++ addr) (y' ++ addr') fun z z' ↦
        if z' = [] then tm.Makes z tm' else tm'.Makes z' tm

instance (user : AuthUser) (addr : Addr) (tm : LocalTime) (user' : AuthUser) (addr' : Addr)
    (tm' : LocalTime) : Decidable (CutAlike user addr tm user' addr' tm') :=
  inferInstanceAs (Decidable (Over _ _ _))

/-- A user that is tried may be taken for the issuer: anyone where the address differs or the
lifetime is over, else those who are tried before the issuer. -/
def ReadsAlike (rows : List AuthUser) (hours : ℕ) (user : AuthUser) (addr : Addr) (issued : ℤ)
    (addr' : Addr) (now : ℤ) : Prop :=
  ∃ user' ∈ (if addr' = addr ∧ InLifetime config hours issued now then
      rows.takeWhile (· ≠ user) else rows),
    ∃ i < hours, CutAlike user' addr' (localtime config.utcOffset (now - 3600 * (i : ℕ)))
      user addr (localtime config.utcOffset issued)

theorem over_iff {field field' : List Char} {next : List Char → List Char → Prop} :
    Over field field' next ↔
      (∃ z', field' = field ++ z' ∧ next [] z') ∨ ∃ z, field = field' ++ z ∧ next z [] := by
  refine or_congr ⟨?_, ?_⟩ ⟨?_, ?_⟩
  · rintro ⟨⟨z, rfl⟩, hnext⟩
    exact ⟨z, rfl, by rwa [List.drop_left] at hnext⟩
  · rintro ⟨z, rfl, hnext⟩
    exact ⟨List.prefix_append _ _, by rwa [List.drop_left]⟩
  · rintro ⟨⟨z, rfl⟩, hnext⟩
    exact ⟨z, rfl, by rwa [List.drop_left] at hnext⟩
  · rintro ⟨z, rfl, hnext⟩
    exact ⟨List.prefix_append _ _, by rwa [List.drop_left]⟩

/-- What follows is read after the rest of the longer field. -/
theorem over_iff_append {field field' text text' : List Char}
    {next : List Char → List Char → Prop}
    (h : ∀ z z', z = [] ∨ z' = [] → (next z z' ↔ z ++ text = z' ++ text')) :
    Over field field' next ↔ field ++ text = field' ++ text' := by
  rw [over_iff, List.append_eq_append_iff]
  refine or_congr (exists_congr fun z ↦ and_congr_right fun _ ↦ ?_)
    (exists_congr fun z ↦ and_congr_right fun _ ↦ ?_)
  · rw [h [] z (.inl rfl), List.nil_append]
  · rw [h z [] (.inr rfl), List.nil_append]
    exact eq_comm

namespace Digits

variable {a b text z : List Char}

theorem read_append (a b : List Char) : read (a ++ b) = (read a).append (read b) := by
  rw [read, Nat.ofDigitChars_append, Nat.ofDigitChars_eq_ofDigitChars_zero, List.length_append,
    Nat.mul_comm]
  rfl

theorem read_toDigits (n : ℕ) : read (Nat.toDigits 10 n) = ofNat n := by
  rw [read, ofNat, Nat.ofDigitChars_ten_toDigits]

theorem all_isDigit_toDigits (n : ℕ) : (Nat.toDigits 10 n).all Char.isDigit :=
  List.all_eq_true.mpr fun _ hc ↦ Nat.isDigit_of_mem_toDigits (by decide) le_rfl hc

theorem digit_bounds {c : Char} (h : c.isDigit) : 48 ≤ c.toNat ∧ c.toNat ≤ 57 := by
  simp only [Char.isDigit, Bool.and_eq_true, decide_eq_true_eq] at h
  exact ⟨UInt32.le_iff_toNat_le.mp h.1, UInt32.le_iff_toNat_le.mp h.2⟩

theorem value_cons (c : Char) (text : List Char) :
    (read (c :: text)).value = (c.toNat - 48) * 10 ^ text.length + (read text).value := by
  have hone : read [c] = ⟨1, c.toNat - 48⟩ := by
    rw [read, Nat.ofDigitChars_cons, Nat.ofDigitChars_nil, Nat.mul_zero, Nat.zero_add]
    rfl
  rw [← List.singleton_append, read_append, hone]
  rfl

theorem value_lt (h : text.all Char.isDigit) : (read text).value < 10 ^ text.length := by
  induction text with
  | nil => exact Nat.one_pos
  | cons c text ih =>
    rw [List.all_cons, Bool.and_eq_true] at h
    have hc := digit_bounds h.1
    have htext := ih h.2
    rw [value_cons, List.length_cons, Nat.pow_succ]
    have hdigit : (c.toNat - 48) * 10 ^ text.length ≤ 9 * 10 ^ text.length :=
      Nat.mul_le_mul_right _ (by omega)
    omega

theorem read_inj (ha : a.all Char.isDigit) (hb : b.all Char.isDigit) (h : read a = read b) :
    a = b := by
  induction a generalizing b with
  | nil =>
    have hlen : 0 = b.length := congrArg width h
    exact (List.eq_nil_of_length_eq_zero hlen.symm).symm
  | cons c a ih =>
    cases b with
    | nil => exact absurd (congrArg width h) (Nat.succ_ne_zero _)
    | cons d b =>
      rw [List.all_cons, Bool.and_eq_true] at ha hb
      have hlen : a.length = b.length := Nat.succ.inj (congrArg width h)
      have hvalue := congrArg value h
      rw [value_cons, value_cons, ← hlen] at hvalue
      have hva := value_lt ha.2
      have hvb := value_lt hb.2
      rw [← hlen] at hvb
      have hpos : 0 < 10 ^ a.length := Nat.pow_pos (by decide)
      have hquot := congrArg (· / 10 ^ a.length) hvalue
      have hrest := congrArg (· % 10 ^ a.length) hvalue
      simp only [Nat.mul_comm _ (10 ^ a.length), Nat.mul_add_div hpos, Nat.mul_add_mod,
        Nat.div_eq_of_lt hva, Nat.div_eq_of_lt hvb, Nat.mod_eq_of_lt hva,
        Nat.mod_eq_of_lt hvb] at hquot hrest
      have hc := digit_bounds ha.1
      have hd := digit_bounds hb.1
      have hcd : c = d := Char.toNat_inj.mp (by omega)
      rw [hcd, ih ha.2 hb.2 (by rw [read, read, hlen]; exact congrArg (mk _) hrest)]

theorem append_eq_iff (ha : a.all Char.isDigit) (hb : b.all Char.isDigit) :
    z.all Char.isDigit ∧ read (z ++ a) = read b ↔ z ++ a = b := by
  constructor
  · rintro ⟨hz, h⟩
    refine read_inj ?_ hb h
    rw [List.all_append, hz, ha, Bool.and_self]
  · rintro rfl
    rw [List.all_append, Bool.and_eq_true] at hb
    exact ⟨hb.1, rfl⟩

theorem sign_notMem (h : text.all Char.isDigit) : '-' ∉ text := fun hmem ↦
  absurd (List.all_eq_true.mp h _ hmem) (by decide)

theorem signed_eq_signed_iff {y y' : List Char} (ha : a.all Char.isDigit)
    (hb : b.all Char.isDigit) (hy : y'.all Char.isDigit) :
    z ++ (a ++ '-' :: y) = b ++ '-' :: y' ↔
      (z.all Char.isDigit ∧ read (z ++ a) = read b) ∧ y = y' := by
  rw [append_eq_iff ha hb, ← List.append_assoc, eq_comm,
    List.append_cons_inj_of_notMem (sign_notMem hb) (sign_notMem hy)]
  constructor
  · rintro ⟨hz, -, hyear⟩
    exact ⟨hz.symm, hyear.symm⟩
  · rintro ⟨hz, hyear⟩
    exact ⟨hz.symm, rfl, hyear.symm⟩

/-- The sign is one of the characters in front. -/
theorem eq_signed_iff {y : List Char} (ha : a.all Char.isDigit) (hb : b.all Char.isDigit)
    (hy : y.all Char.isDigit) :
    z ++ a = b ++ '-' :: y ↔
      (z.dropWhile Char.isDigit).head? = some '-' ∧ read (z.takeWhile Char.isDigit) = read b ∧
        (z.dropWhile Char.isDigit).tail.all Char.isDigit ∧
          read ((z.dropWhile Char.isDigit).tail ++ a) = read y := by
  rw [append_eq_iff ha hy]
  constructor
  · intro h
    have hmem : '-' ∈ z := by
      have hmem : '-' ∈ z ++ a := by simp [h]
      exact (List.mem_append.mp hmem).resolve_right (sign_notMem ha)
    obtain ⟨front, back, rfl⟩ := List.append_of_mem hmem
    rw [List.append_assoc, List.cons_append, eq_comm,
      List.append_cons_inj_of_notMem (sign_notMem hb) (sign_notMem hy)] at h
    obtain ⟨rfl, -, hyear⟩ := h
    have hstop : ¬ '-'.isDigit := by decide
    rw [List.takeWhile_append_of_pos (List.all_eq_true.mp hb),
      List.takeWhile_cons_of_neg hstop, List.append_nil,
      List.dropWhile_append_of_pos (List.all_eq_true.mp hb), List.dropWhile_cons_of_neg hstop]
    exact ⟨rfl, rfl, hyear.symm⟩
  · rintro ⟨hsign, hfront, hyear⟩
    have hz := List.takeWhile_append_dropWhile (p := Char.isDigit) (l := z)
    rw [List.eq_cons_of_mem_head? hsign, read_inj List.all_takeWhile hb hfront] at hz
    rw [← hyear, ← List.cons_append, ← List.append_assoc b, hz]

end Digits

theorem localtime_nonneg (utcOffset time : ℤ) :
    0 ≤ (localtime utcOffset time).hour ∧ 0 ≤ (localtime utcOffset time).mday ∧
      0 ≤ (localtime utcOffset time).mon := by
  simp only [localtime, dateOfDay]
  refine ⟨by omega, by omega, ?_⟩
  split_ifs <;> omega

theorem printed_of_nonneg {n : ℤ} (h : 0 ≤ n) : printed n = Nat.toDigits 10 n.toNat := by
  obtain ⟨n, rfl⟩ := Int.eq_ofNat_of_zero_le h
  rfl

theorem exists_moment (utcOffset time : ℤ) : ∃ text : List Char, text.all Char.isDigit ∧
    Digits.read text = (localtime utcOffset time).moment ∧
      (localtime utcOffset time).stamp = text ++ printed (localtime utcOffset time).year := by
  obtain ⟨hhour, hmday, hmon⟩ := localtime_nonneg utcOffset time
  refine ⟨_, ?_, ?_, by rw [LocalTime.stamp, printed_of_nonneg hhour, printed_of_nonneg hmday,
    printed_of_nonneg hmon]⟩
  · simp only [List.all_append, Digits.all_isDigit_toDigits, Bool.and_self]
  · simp only [Digits.read_append, Digits.read_toDigits]
    rfl

/-- The digits of a time are read back from its text. -/
theorem makes_iff (utcOffset time time' : ℤ) (z : List Char) :
    (localtime utcOffset time).Makes z (localtime utcOffset time') ↔
      z ++ (localtime utcOffset time).stamp = (localtime utcOffset time').stamp := by
  obtain ⟨u, hu, hread, hstamp⟩ := exists_moment utcOffset time
  obtain ⟨u', hu', hread', hstamp'⟩ := exists_moment utcOffset time'
  rw [LocalTime.Makes, hstamp, hstamp', ← hread, ← hread']
  have hdigits (n : ℕ) := Digits.all_isDigit_toDigits n
  have hall {text : List Char} (htext : text.all Char.isDigit) (n : ℕ) :
      (text ++ Nat.toDigits 10 n).all Char.isDigit := by
    rw [List.all_append, htext, hdigits, Bool.and_self]
  simp only [← Digits.read_toDigits, ← Digits.read_append, List.append_assoc]
  cases (localtime utcOffset time).year with
  | ofNat year =>
    rw [if_neg (show ¬Int.ofNat year < 0 from Int.not_lt.mpr (Int.natCast_nonneg year))]
    cases (localtime utcOffset time').year with
    | ofNat year' =>
      rw [if_neg (show ¬Int.ofNat year' < 0 from Int.not_lt.mpr (Int.natCast_nonneg year'))]
      exact Digits.append_eq_iff (hall hu year) (hall hu' year')
    | negSucc year' =>
      rw [if_pos (Int.negSucc_lt_zero year')]
      exact (Digits.eq_signed_iff (hall hu year) hu' (hdigits _)).symm
  | negSucc year =>
    rw [if_pos (Int.negSucc_lt_zero year)]
    cases (localtime utcOffset time').year with
    | ofNat year' =>
      refine iff_of_false (fun h ↦ by cases h.1) fun h ↦ ?_
      dsimp only [printed] at h
      exact Digits.sign_notMem (hall hu' year') (by simp [← h])
    | negSucc year' =>
      have hyears : Nat.toDigits 10 (year + 1) = Nat.toDigits 10 (year' + 1) ↔
          Int.negSucc year = Int.negSucc year' := by
        constructor
        · intro hyear
          have hread := congrArg (fun text ↦ Nat.ofDigitChars 10 text 0) hyear
          simp only [Nat.ofDigitChars_ten_toDigits, Nat.succ.injEq] at hread
          exact congrArg Int.negSucc hread
        · intro hyear
          rw [Int.negSucc.inj hyear]
      rw [← hyears, and_comm]
      exact (Digits.signed_eq_signed_iff hu hu' (hdigits _)).symm

theorem cutAlike_iff (user : AuthUser) (addr : Addr) (time : ℤ) (user' : AuthUser) (addr' : Addr)
    (time' : ℤ) :
    CutAlike user addr (localtime config.utcOffset time) user' addr'
        (localtime config.utcOffset time') ↔
      signedText config user addr time = signedText config user' addr' time' := by
  simp only [signedText, List.append_assoc]
  refine over_iff_append fun x x' _ ↦ ?_
  rw [← List.append_assoc x, ← List.append_assoc x']
  refine over_iff_append fun y y' _ ↦ ?_
  rw [← List.append_assoc y, ← List.append_assoc y']
  refine over_iff_append fun z z' hz ↦ ?_
  split_ifs with hz'
  · rw [makes_iff, hz', List.nil_append]
  · obtain rfl := hz.resolve_right hz'
    rw [makes_iff, List.nil_append, eq_comm]

theorem localtime_congr {utcOffset time time' : ℤ}
    (h : (time + utcOffset) / 3600 = (time' + utcOffset) / 3600) :
    localtime utcOffset time = localtime utcOffset time' := by
  have hday : (time + utcOffset) / 86400 = (time' + utcOffset) / 86400 := by omega
  have hhour : (time + utcOffset) % 86400 / 3600 = (time' + utcOffset) % 86400 / 3600 := by omega
  simp only [localtime, hday, hhour]

/-- One of the hours that are tried within the lifetime is the hour of issue. -/
theorem InLifetime.exists_hour {hours : ℕ} {issued now : ℤ}
    (h : InLifetime config hours issued now) :
    ∃ i < hours, localtime config.utcOffset (now - 3600 * (i : ℕ)) =
      localtime config.utcOffset issued := by
  obtain ⟨hstart, hend⟩ := h
  simp only [hourStart] at hstart hend
  obtain ⟨i, hi⟩ : ∃ i : ℕ, (i : ℤ) =
      (now + config.utcOffset) / 3600 - (issued + config.utcOffset) / 3600 :=
    ⟨((now + config.utcOffset) / 3600 - (issued + config.utcOffset) / 3600).toNat, by omega⟩
  refine ⟨i, by omega, localtime_congr ?_⟩
  omega

theorem hashMatches_iff {hours : ℕ} {user user' : AuthUser} {addr addr' : Addr}
    {issued now : ℤ} :
    hashMatches md5 config hours user' addr' now (calculateAuthHash md5 config user addr issued) ↔
      ∃ i < hours, CutAlike user' addr' (localtime config.utcOffset (now - 3600 * (i : ℕ)))
        user addr (localtime config.utcOffset issued) := by
  simp only [hashMatches, calculateAuthHash, authKey, List.any_eq_true, List.mem_range,
    decide_eq_true_eq, md5.injective.eq_iff, List.append_cancel_left_eq, cutAlike_iff]

theorem forall_mem_find?_eq_iff {α : Type*} [DecidableEq α] {p : α → Bool} {a : α} (ha : p a)
    (rows : List α) :
    (∀ b ∈ rows.find? p, b = a) ↔ ¬∃ b ∈ rows.takeWhile (· ≠ a), p b := by
  induction rows with
  | nil => simp
  | cons b rows ih =>
    by_cases hb : b = a
    · simp [hb, ha]
    · by_cases hp : p b
      · simp [hb, hp]
      · have hp' : p b = false := by simpa using hp
        simpa [hb, hp'] using ih

/-- Of the users that are tried, the first whose text reads like the signed one is loaded. -/
theorem identifies_find?_iff (rows : List AuthUser) (hours : ℕ) (user : AuthUser) (addr : Addr)
    (issued : ℤ) (addr' : Addr) (now : ℤ) :
    Identifies config (rows.find? (fun user' ↦ hashMatches md5 config hours user' addr' now
        (calculateAuthHash md5 config user addr issued))) hours user addr issued addr' now ↔
      ¬ReadsAlike config rows hours user addr issued addr' now := by
  simp only [ReadsAlike, ← hashMatches_iff md5]
  by_cases hown : addr' = addr ∧ InLifetime config hours issued now
  · rw [if_pos hown]
    have hself : hashMatches md5 config hours user addr' now
        (calculateAuthHash md5 config user addr issued) := by
      rw [hashMatches_iff, hown.1]
      obtain ⟨i, hi, htm⟩ := hown.2.exists_hour config
      exact ⟨i, hi, by rw [cutAlike_iff, signedText, signedText, htm]⟩
    rw [← forall_mem_find?_eq_iff (p := fun user' ↦ hashMatches md5 config hours user' addr' now
      (calculateAuthHash md5 config user addr issued)) hself]
    simp only [Identifies, hown.1, hown.2, true_and, and_true]
  · rw [if_neg hown]
    constructor
    · intro h hex
      obtain ⟨user', hmem⟩ := Option.isSome_iff_exists.mp (List.find?_isSome.mpr hex)
      obtain ⟨haddr, -, hlife⟩ := h user' hmem
      exact hown ⟨haddr, hlife⟩
    · intro h user' hmem
      have hmatch := List.find?_some hmem
      exact absurd ⟨user', List.mem_of_find?_eq_some hmem, hmatch⟩ h

/-- A hash identifies its issuer, address and hour exactly when no user that is tried reads like
the issuer. -/
theorem loaded_identifies_iff (users : List AuthUser) (named : List Char → Bool)
    (username : List Char) (filterUser : Bool) (user : AuthUser) (addr : Addr) (issued : ℤ)
    (addr' : Addr) (now : ℤ) :
    (Identifies config (Daemon.zmLoadAuthUser md5 config users named username addr' now
        (calculateAuthHash md5 config user addr issued)) (Daemon.hashHours config)
        user addr issued addr' now ↔
      ¬ReadsAlike config (Daemon.userRows users named username) (Daemon.hashHours config)
        user addr issued addr' now) ∧
    (Identifies config (Web.getAuthUser md5 config users named filterUser addr' now
        (calculateAuthHash md5 config user addr issued)) config.hashTtl
        user addr issued addr' now ↔
      ¬(config.optUseAuth ∧ config.relayHashed ∧
        ReadsAlike config (Web.userRows users named filterUser) config.hashTtl
          user addr issued addr' now)) := by
  constructor
  · exact identifies_find?_iff md5 config _ _ user addr issued addr' now
  · have hne : Php.isEmpty (calculateAuthHash md5 config user addr issued) = false :=
      md5.nonempty _
    rw [Web.getAuthUser]
    by_cases huse : config.optUseAuth ∧ config.relayHashed
    · rw [if_pos ⟨huse.1, huse.2, hne⟩, identifies_find?_iff]
      simp only [huse.1, huse.2, true_and]
    · rw [if_neg (by intro h; exact huse ⟨h.1, h.2.1⟩)]
      refine iff_of_true ?_ (by intro h; exact huse ⟨h.1, h.2.1⟩)
      intro user' hmem
      simp at hmem

/-- The first hour of the eleventh of January reads like the first hour of the first of November. -/
theorem loaded_identifies_fails :
    ¬∀ (md5 : Md5) (config : HashConfig) (users : List AuthUser) (named : List Char → Bool)
        (username : List Char) (user : AuthUser) (addr : Addr) (issued : ℤ) (addr' : Addr)
        (now : ℤ),
      (users.map AuthUser.username).Nodup →
      (∀ u ∈ users, ∀ v ∈ users, u.password.length = v.password.length) → user ∈ users →
      Identifies config (Daemon.zmLoadAuthUser md5 config users named username addr' now
        (calculateAuthHash md5 config user addr issued)) (Daemon.hashHours config)
        user addr issued addr' now := by
  intro h
  let md5 : Md5 :=
    ⟨fun text ↦ 'x' :: text, fun _ _ htext ↦ (List.cons.inj htext).2, fun _ ↦ by simp [Php.isEmpty]⟩
  let config : HashConfig := ⟨⟨true, true, true, 2⟩, ['k', 'e', 'y'], 0⟩
  let admin : AuthUser := ⟨['a', 'd', 'm', 'i', 'n'], ['$', '2', 'y'], true⟩
  let addr : Addr := ['1', '0', '.', '0', '.', '0', '.', '1']
  have hloaded := h md5 config [admin] (fun _ ↦ true) admin.username admin addr 1768093200 addr
    1793494800 (by simp) (by simp) (by simp)
  refine (identifies_find?_iff md5 config _ _ admin addr 1768093200 addr 1793494800).mp
    hloaded ⟨admin, ?_, 0, by decide, by decide⟩
  rw [if_neg (by decide)]
  simp [Daemon.userRows, admin]

end ZoneMinder.Auth
