import ZoneMinder.Auth.HashCache
import ZoneMinder.Php

namespace ZoneMinder.Auth

open Lib

/-- The right-most hop that is not trusted, else the left-most one, else the peer. -/
def originHop (trusted : Addr → Bool) (hops : List Addr) (remoteAddr : Addr) : Addr :=
  (hops.reverse.find? (fun hop ↦ !trusted hop)).getD (hops.head?.getD remoteAddr)

namespace Web

def listSeparator (c : Char) : Bool := Php.space c || c = ','

def trusted (trustedProxies : List Char) (addr : Addr) : Bool :=
  addr ∈ pieces listSeparator trustedProxies

def hops (forwardedFor : List Char) : List Addr :=
  ((forwardedFor.splitOn ',').map Php.trim).filter (fun hop ↦ !hop.isEmpty)

/-- An absent variable of the server reads as an empty one. -/
def getRemoteAddr (remoteAddr forwardedFor trustedProxies : List Char) : Addr :=
  if Php.isEmpty forwardedFor || !trusted trustedProxies remoteAddr then remoteAddr
  else originHop (trusted trustedProxies) (hops forwardedFor) remoteAddr

end Web

namespace Daemon

def listSeparator (c : Char) : Bool := c ∈ [' ', '\t', '\r', '\n', ',']

def trimmed (c : Char) : Bool := c = ' ' || c = '\t'

def trimSpaces (text : List Char) : List Char := trim trimmed text

/-- The part of the text from one token on. Only a delimiter at the very start leaves no token. -/
def splitTokens (delim : Char → Bool) (atStart : Bool) (str : List Char) : List (List Char) :=
  let token := str.takeWhile (fun c ↦ !delim c)
  let found := if atStart ∧ token = [] ∧ token ≠ str then [] else [token]
  match _h : str.dropWhile (fun c ↦ !delim c) with
  | [] => found
  | _ :: rest =>
    if rest.dropWhile delim = [] then found
    else found ++ splitTokens delim false (rest.dropWhile delim)
termination_by str.length
decreasing_by
  have hle : (rest.dropWhile delim).length ≤ rest.length := List.length_dropWhile_le _ _
  have hlen : (str.dropWhile (fun c ↦ !delim c)).length ≤ str.length :=
    List.length_dropWhile_le _ _
  rw [_h, List.length_cons] at hlen
  omega

def splitAt (delim : Char) (str : List Char) : List (List Char) :=
  match _h : str.dropWhile (fun c ↦ c != delim) with
  | [] => [str]
  | _ :: rest => str.takeWhile (fun c ↦ c != delim) :: splitAt delim rest
termination_by str.length
decreasing_by
  have hlen : (str.dropWhile (fun c ↦ c != delim)).length ≤ str.length :=
    List.length_dropWhile_le _ _
  rw [_h, List.length_cons] at hlen
  omega

def trusted (trustedProxies : List Char) (addr : Addr) : Bool :=
  !addr.isEmpty && addr ∈ splitTokens listSeparator true trustedProxies

def hops (forwardedFor : List Char) : List Addr :=
  ((splitAt ',' forwardedFor).map trimSpaces).filter (fun hop ↦ !hop.isEmpty)

def clientAddress (remoteAddr forwardedFor trustedProxies : List Char) : Addr :=
  if forwardedFor.isEmpty || !trusted trustedProxies remoteAddr then remoteAddr
  else originHop (trusted trustedProxies) (hops forwardedFor) remoteAddr

end Daemon

theorem dropWhile_head {p : Char → Bool} {c : Char} {str rest : List Char}
    (h : str.dropWhile (fun c ↦ !p c) = c :: rest) :
    p c ∧ str = str.takeWhile (fun c ↦ !p c) ++ c :: rest := by
  constructor
  · have hne : str.dropWhile (fun c ↦ !p c) ≠ [] := by simp [h]
    have hhead := List.head_dropWhile_not (fun c ↦ !p c) hne
    simpa [h] using hhead
  · rw [← h, List.takeWhile_append_dropWhile]

theorem takeWhile_not (p : Char → Bool) (str : List Char) :
    ∀ c ∈ str.takeWhile (fun c ↦ !p c), p c = false := by
  intro c hc
  simpa using List.mem_takeWhile_imp hc

/-- Apart from an empty token, the tokens are the pieces between the delimiters. -/
theorem Daemon.mem_splitTokens {delim : Char → Bool} {atStart : Bool} {str w : List Char}
    (hw : w ≠ []) : w ∈ Daemon.splitTokens delim atStart str ↔ w ∈ pieces delim str := by
  induction hn : str.length using Nat.strong_induction_on generalizing str atStart with
  | _ n ih =>
    have hfound : w ∈ (if atStart ∧ str.takeWhile (fun c ↦ !delim c) = [] ∧
          str.takeWhile (fun c ↦ !delim c) ≠ str then []
        else [str.takeWhile (fun c ↦ !delim c)]) ↔ w = str.takeWhile (fun c ↦ !delim c) := by
      split_ifs with he
      · simp [he.2.1, hw]
      · simp
    rw [Daemon.splitTokens]
    split
    next hnil =>
      have hstr : str.takeWhile (fun c ↦ !delim c) = str := by
        have happ := List.takeWhile_append_dropWhile (p := fun c ↦ !delim c) (l := str)
        rwa [hnil, List.append_nil] at happ
      rw [hfound, hstr]
      have hnone : ∀ c ∈ str, delim c = false := by
        rw [← hstr]
        exact takeWhile_not delim str
      rw [pieces_of_none hnone]
      by_cases he : str = []
      · simp [he, hw]
      · simp [he]
    next c rest hcons =>
      obtain ⟨hc, hstr⟩ := dropWhile_head hcons
      have hlen : rest.length < str.length := by
        rw [hstr]
        simp
        omega
      have hpieces : w ∈ pieces delim str ↔ w = str.takeWhile (fun c ↦ !delim c) ∨
          w ∈ pieces delim (rest.dropWhile delim) := by
        conv_lhs => rw [hstr]
        rw [pieces_append_cons (takeWhile_not delim str) hc, List.mem_append, pieces_dropWhile]
        split_ifs with he
        · simp [he, hw]
        · simp
      rw [hpieces]
      by_cases hrest : rest.dropWhile delim = []
      · rw [if_pos hrest, hfound, hrest, pieces_of_none (by simp)]
        simp
      · rw [if_neg hrest, List.mem_append, hfound]
        have hle : (rest.dropWhile delim).length ≤ rest.length := List.length_dropWhile_le _ _
        rw [ih _ (by omega) rfl]

theorem Daemon.splitAt_eq (delim : Char) (str : List Char) :
    Daemon.splitAt delim str = str.splitOn delim := by
  induction hn : str.length using Nat.strong_induction_on generalizing str with
  | _ n ih =>
    have hnot : ∀ c ∈ str.takeWhile (fun c ↦ !(c == delim)), (c == delim) = false :=
      takeWhile_not (fun c ↦ c == delim) str
    rw [Daemon.splitAt]
    split
    next hnil =>
      have happ := List.takeWhile_append_dropWhile (p := fun c ↦ !(c == delim)) (l := str)
      have hstr : str.takeWhile (fun c ↦ !(c == delim)) = str := by
        rwa [show str.dropWhile (fun c ↦ !(c == delim)) = [] from hnil, List.append_nil] at happ
      rw [List.splitOn_eq_singleton_of_beq_eq_false]
      rwa [hstr] at hnot
    next c rest hcons =>
      obtain ⟨hc, hstr⟩ := dropWhile_head (p := fun c ↦ c == delim) hcons
      have hlen : rest.length < str.length := by
        rw [hstr]
        simp
        omega
      rw [ih _ (by omega) rest rfl]
      conv_rhs => rw [hstr]
      rw [List.splitOn_append_cons_of_forall_mem_beq_eq_false hnot c hc]
      rfl

variable {remoteAddr forwardedFor trustedProxies : List Char} {trusted : Addr → Bool}

/-- A list of proxies without the characters that only one side takes for a separator. -/
def PlainList (trustedProxies : List Char) : Prop :=
  ∀ c ∈ trustedProxies, c ≠ '\x0b' ∧ c ≠ '\x0c'

/-- The web interface stops at a field in which it reads a hop that it does not trust. -/
def Web.stops (trustedProxies field : List Char) : Bool :=
  !(Php.trim field).isEmpty && !Web.trusted trustedProxies (Php.trim field)

def Daemon.stops (trustedProxies field : List Char) : Bool :=
  !(Daemon.trimSpaces field).isEmpty && !Daemon.trusted trustedProxies (Daemon.trimSpaces field)

/-- The hops lead back to the peer: all are trusted, and the left-most one is the peer itself. -/
def LeadsBack (trusted : Addr → Bool) (hops : List Addr) (remoteAddr : Addr) : Prop :=
  (∀ hop ∈ hops, trusted hop) ∧ ∀ hop ∈ hops.head?, hop = remoteAddr

/-- Both lists say the same of every hop. -/
def ListsAgree (forwardedFor trustedProxies : List Char) : Prop :=
  ∀ hop ∈ Daemon.hops forwardedFor,
    Web.trusted trustedProxies hop = Daemon.trusted trustedProxies hop

instance : Decidable (ListsAgree forwardedFor trustedProxies) :=
  inferInstanceAs (Decidable (∀ hop ∈ Daemon.hops forwardedFor, _ = _))

/-- From the right, the first field at which a side stops reads the same on both sides. Where one of
them goes on from there, the hop has to be on its way too. -/
def FieldsAgree (forwardedFor trustedProxies : List Char) : Prop :=
  match (forwardedFor.splitOn ',').reverse.find?
      (fun field ↦ Web.stops trustedProxies field || Daemon.stops trustedProxies field) with
  | none =>
    ∀ field ∈ (forwardedFor.splitOn ',').find? (fun field ↦ !(Daemon.trimSpaces field).isEmpty),
      Php.trim field = Daemon.trimSpaces field
  | some field =>
    if Daemon.stops trustedProxies field = false then
      ((Daemon.hops forwardedFor).reverse.find? (fun hop ↦ !Daemon.trusted trustedProxies hop)).or
        (Daemon.hops forwardedFor).head? = some (Php.trim field)
    else if Web.stops trustedProxies field = false then
      (∀ hop ∈ Web.hops forwardedFor, Web.trusted trustedProxies hop) ∧
        (Web.hops forwardedFor).head? = some (Daemon.trimSpaces field)
    else Php.trim field = Daemon.trimSpaces field

/-- Where the lists say the same, the right-most hop that is not trusted has no vertical tab at an
end. A header that is a zero is an empty one for the web interface. -/
def SidesAgree (remoteAddr forwardedFor trustedProxies : List Char) : Prop :=
  forwardedFor = [] ∨
    match Web.trusted trustedProxies remoteAddr, Daemon.trusted trustedProxies remoteAddr with
    | false, false => True
    | true, false => forwardedFor = ['0'] ∨
      LeadsBack (Web.trusted trustedProxies) (Web.hops forwardedFor) remoteAddr
    | false, true =>
      LeadsBack (Daemon.trusted trustedProxies) (Daemon.hops forwardedFor) remoteAddr
    | true, true =>
      if forwardedFor = ['0'] then remoteAddr = ['0']
      else if ListsAgree forwardedFor trustedProxies then
        ∀ hop ∈ (Daemon.hops forwardedFor).reverse.find?
          (fun hop ↦ !Daemon.trusted trustedProxies hop), Php.trim hop = hop
      else FieldsAgree forwardedFor trustedProxies

theorem Daemon.trusted_eq_mem (trustedProxies : List Char) (addr : Addr) :
    Daemon.trusted trustedProxies addr =
      decide (addr ∈ pieces Daemon.listSeparator trustedProxies) := by
  unfold Daemon.trusted
  cases addr with
  | nil =>
    have hnil : [] ∉ pieces Daemon.listSeparator trustedProxies := fun hm ↦ (mem_pieces hm).1 rfl
    simp [hnil]
  | cons c addr => simp [Daemon.mem_splitTokens]

theorem trusted_eq (h : PlainList trustedProxies) (addr : Addr) :
    Web.trusted trustedProxies addr = Daemon.trusted trustedProxies addr := by
  have hpieces : pieces Web.listSeparator trustedProxies =
      pieces Daemon.listSeparator trustedProxies := by
    apply pieces_congr
    intro c hc
    obtain ⟨hv, hf⟩ := h c hc
    simp only [Web.listSeparator, Php.space, Daemon.listSeparator, List.mem_cons,
      List.not_mem_nil, or_false, hv, hf, false_or, ← Bool.decide_or]
    congr 1
    simp only [eq_iff_iff]
    tauto
  rw [Web.trusted, Daemon.trusted_eq_mem, hpieces]

theorem originHop_mem (trusted : Addr → Bool) (hops : List Addr) (remoteAddr : Addr) :
    originHop trusted hops remoteAddr ∈ hops ∨ originHop trusted hops remoteAddr = remoteAddr := by
  unfold originHop
  cases hfind : hops.reverse.find? (fun hop ↦ !trusted hop) with
  | some hop => exact .inl (by simpa using List.mem_of_find?_eq_some hfind)
  | none =>
    cases hops with
    | nil => exact .inr rfl
    | cons hop hops => exact .inl (by simp)

/-- The hop that is looked for, as a field of the header. -/
theorem find_hops (trusted : Addr → Bool) (read : List Char → Addr) (fields : List (List Char)) :
    ((fields.map read).filter (fun hop ↦ !hop.isEmpty)).reverse.find? (fun hop ↦ !trusted hop) =
      (fields.reverse.find? (fun field ↦ !(read field).isEmpty && !trusted (read field))).map
        read := by
  rw [← List.filter_reverse, ← List.map_reverse, List.find?_filter, List.find?_map]
  simp only [Function.comp_def, Bool.decide_and, Bool.decide_eq_true]

theorem trim_trimSpaces (field : List Char) :
    Php.trim (Daemon.trimSpaces field) = Php.trim field := by
  apply trim_trim
  intro c hc
  rcases Bool.or_eq_true_iff.mp hc with hc | hc <;> simp [Php.trimmed, of_decide_eq_true hc]

theorem trim_idem (text : List Char) : Php.trim (Php.trim text) = Php.trim text :=
  trim_trim (fun _ h ↦ h) text

theorem daemon_hops_eq (forwardedFor : List Char) : Daemon.hops forwardedFor =
    ((forwardedFor.splitOn ',').map Daemon.trimSpaces).filter (fun hop ↦ !hop.isEmpty) := by
  rw [Daemon.hops, Daemon.splitAt_eq]

theorem find_web_hops : (Web.hops forwardedFor).reverse.find?
      (fun hop ↦ !Web.trusted trustedProxies hop) =
    ((forwardedFor.splitOn ',').reverse.find? (Web.stops trustedProxies)).map Php.trim :=
  find_hops _ _ _

theorem find_daemon_hops : (Daemon.hops forwardedFor).reverse.find?
      (fun hop ↦ !Daemon.trusted trustedProxies hop) =
    ((forwardedFor.splitOn ',').reverse.find? (Daemon.stops trustedProxies)).map
      Daemon.trimSpaces := by
  rw [daemon_hops_eq]
  exact find_hops _ _ _

/-- What the list of the web interface holds has no whitespace to take off. -/
theorem trim_eq_of_trusted {addr : Addr} (h : Web.trusted trustedProxies addr)
    (hx : ∀ c ∈ addr, c ≠ '\x00') : Php.trim addr = addr := by
  apply trim_eq_self
  intro c hc
  have hsep := (mem_pieces (of_decide_eq_true h)).2 c hc
  have hnul := hx c hc
  simp only [Web.listSeparator, Php.space, Bool.or_eq_false_iff, decide_eq_false_iff_not,
    List.mem_cons, List.not_mem_nil, or_false, not_or] at hsep
  simp only [Php.trimmed, decide_eq_false_iff_not, List.mem_cons, List.not_mem_nil, or_false,
    not_or]
  tauto

section Header

variable {field : List Char} (hx : ∀ c ∈ forwardedFor, c ≠ '\x00')
  (hfield : field ∈ forwardedFor.splitOn ',')

include hfield

theorem mem_daemon_hops (hne : (Daemon.trimSpaces field).isEmpty = false) :
    Daemon.trimSpaces field ∈ Daemon.hops forwardedFor := by
  rw [daemon_hops_eq, List.mem_filter, hne]
  exact ⟨List.mem_map_of_mem hfield, rfl⟩

theorem mem_daemon_hops_of_stops (hw : Web.stops trustedProxies field) :
    Daemon.trimSpaces field ∈ Daemon.hops forwardedFor := by
  apply mem_daemon_hops hfield
  rw [List.isEmpty_eq_false_iff]
  intro hnil
  have htrim : Php.trim field = [] := by
    rw [← trim_trimSpaces, hnil]
    rfl
  simp [Web.stops, htrim] at hw

theorem ListsAgree.trusted_eq (h : ListsAgree forwardedFor trustedProxies)
    (hne : (Daemon.trimSpaces field).isEmpty = false) :
    Web.trusted trustedProxies (Daemon.trimSpaces field) =
      Daemon.trusted trustedProxies (Daemon.trimSpaces field) :=
  h _ (mem_daemon_hops hfield hne)

theorem ListsAgree.stops_eq (h : ListsAgree forwardedFor trustedProxies)
    (htrim : Php.trim field = Daemon.trimSpaces field) :
    Web.stops trustedProxies field = Daemon.stops trustedProxies field := by
  rw [Web.stops, Daemon.stops, htrim]
  cases hne : (Daemon.trimSpaces field).isEmpty with
  | true => rfl
  | false => rw [h.trusted_eq hfield hne]

include hx

theorem ne_nul_of_trimSpaces : ∀ c ∈ Daemon.trimSpaces field, c ≠ '\x00' := by
  intro c hc
  apply hx
  rw [List.splitOn_eq_splitOnP] at hfield
  exact (mem_field hfield (mem_of_mem_trim hc)).1

/-- A hop that the daemon goes past reads the same on both sides. -/
theorem ListsAgree.trim_eq (h : ListsAgree forwardedFor trustedProxies)
    (hpast : Daemon.stops trustedProxies field = false) :
    Php.trim field = Daemon.trimSpaces field := by
  rw [← trim_trimSpaces]
  cases hne : (Daemon.trimSpaces field).isEmpty with
  | true =>
    rw [List.isEmpty_iff.mp hne]
    rfl
  | false =>
    have htrusted : Web.trusted trustedProxies (Daemon.trimSpaces field) = true := by
      rw [h.trusted_eq hfield hne]
      simpa [Daemon.stops, hne] using hpast
    exact trim_eq_of_trusted htrusted (ne_nul_of_trimSpaces hx hfield)

end Header

/-- Both sides walk the same hops up to the one that the daemon stops at. -/
theorem originHop_eq_iff_of_agree (h : ListsAgree forwardedFor trustedProxies)
    (hx : ∀ c ∈ forwardedFor, c ≠ '\x00') (hpeer : Daemon.trusted trustedProxies remoteAddr) :
    originHop (Web.trusted trustedProxies) (Web.hops forwardedFor) remoteAddr =
        originHop (Daemon.trusted trustedProxies) (Daemon.hops forwardedFor) remoteAddr ↔
      ∀ hop ∈ (Daemon.hops forwardedFor).reverse.find?
        (fun hop ↦ !Daemon.trusted trustedProxies hop), Php.trim hop = hop := by
  cases hpick : (forwardedFor.splitOn ',').reverse.find? (Daemon.stops trustedProxies) with
  | none =>
    have hpast : ∀ field ∈ forwardedFor.splitOn ',', Daemon.stops trustedProxies field = false := by
      intro field hfield
      simpa using List.find?_eq_none.mp hpick field (by simpa using hfield)
    have hsame : Web.hops forwardedFor = Daemon.hops forwardedFor := by
      rw [daemon_hops_eq, Web.hops]
      congr 1
      exact List.map_congr_left fun field hfield ↦ h.trim_eq hx hfield (hpast field hfield)
    have hnone : (forwardedFor.splitOn ',').reverse.find? (Web.stops trustedProxies) = none := by
      apply List.find?_eq_none.mpr
      intro field hfield
      have hfield := List.mem_reverse.mp hfield
      rw [h.stops_eq hfield (h.trim_eq hx hfield (hpast field hfield)), hpast field hfield]
      exact Bool.false_ne_true
    rw [originHop, originHop, find_web_hops, find_daemon_hops, hpick, hnone, hsame]
    simp
  | some field =>
    obtain ⟨hstop, before, after, hsplit, hbefore⟩ := List.find?_eq_some_iff_append.mp hpick
    have hmem : ∀ f ∈ before ++ field :: after, f ∈ forwardedFor.splitOn ',' := by
      intro f hf
      rw [← hsplit] at hf
      exact List.mem_reverse.mp hf
    have huntrusted := (Bool.and_eq_true_iff.mp hstop).2
    have hdaemon : originHop (Daemon.trusted trustedProxies) (Daemon.hops forwardedFor)
        remoteAddr = Daemon.trimSpaces field := by
      rw [originHop, find_daemon_hops, hpick]
      rfl
    rw [hdaemon, find_daemon_hops, hpick]
    simp only [Option.map_some, Option.mem_some_iff, forall_eq']
    constructor
    · intro heq
      rcases originHop_mem (Web.trusted trustedProxies) (Web.hops forwardedFor) remoteAddr
        with hhop | hhop
      · rw [heq] at hhop
        obtain ⟨f, -, hf⟩ := List.mem_map.mp (List.mem_of_mem_filter hhop)
        rw [← hf, trim_idem]
      · rw [heq] at hhop
        rw [hhop, hpeer] at huntrusted
        cases huntrusted
    · intro htrim
      have hread : Php.trim field = Daemon.trimSpaces field := by rw [← trim_trimSpaces, htrim]
      have hpick' : (forwardedFor.splitOn ',').reverse.find? (Web.stops trustedProxies) =
          some field := by
        rw [hsplit, List.find?_append, List.find?_cons_of_pos
          (by rw [h.stops_eq (hmem field (by simp)) hread]; exact hstop)]
        rw [List.find?_eq_none.mpr, Option.none_or]
        intro f hf
        have hf' := hmem f (List.mem_append_left _ hf)
        have hpast := (Bool.not_eq_true' _).mp (hbefore f hf)
        rw [h.stops_eq hf' (h.trim_eq hx hf' hpast), hpast]
        exact Bool.false_ne_true
      rw [originHop, find_web_hops, hpick']
      exact hread

theorem originHop_eq (trusted : Addr → Bool) (hops : List Addr) (remoteAddr : Addr) :
    originHop trusted hops remoteAddr =
      ((hops.reverse.find? (fun hop ↦ !trusted hop)).or hops.head?).getD remoteAddr := by
  rw [originHop]
  cases hops.reverse.find? (fun hop ↦ !trusted hop) <;> rfl

/-- A peer that is trusted is the origin exactly when the hops lead back to it. -/
theorem originHop_eq_peer_iff (hops : List Addr) (hpeer : trusted remoteAddr) :
    originHop trusted hops remoteAddr = remoteAddr ↔ LeadsBack trusted hops remoteAddr := by
  rw [originHop, LeadsBack]
  cases hfind : hops.reverse.find? (fun hop ↦ !trusted hop) with
  | none =>
    have hall : ∀ hop ∈ hops, trusted hop := by simpa using hfind
    rw [and_iff_right hall]
    cases hops <;> simp
  | some hop =>
    have hhop := List.find?_some hfind
    have hmem : hop ∈ hops := by simpa using List.mem_of_find?_eq_some hfind
    refine iff_of_false ?_ fun h ↦ ?_
    · intro h
      obtain rfl : hop = remoteAddr := h
      simp [hpeer] at hhop
    · simp [h.1 hop hmem] at hhop

theorem find?_of_or {α : Type*} {p q : α → Bool} {l : List α} {a : α}
    (h : l.find? (fun a ↦ p a || q a) = some a) (hp : p a) : l.find? p = some a := by
  obtain ⟨-, before, after, rfl, hbefore⟩ := List.find?_eq_some_iff_append.mp h
  refine List.find?_eq_some_iff_append.mpr ⟨hp, before, after, rfl, fun b hb ↦ ?_⟩
  have hnot := hbefore b hb
  simp only [Bool.not_or, Bool.and_eq_true] at hnot
  exact hnot.1

/-- A trusted hop is the origin only as the left-most one of hops that are all trusted. -/
theorem originHop_eq_iff_of_trusted {hops : List Addr} {hop : Addr} (hne : remoteAddr ≠ hop)
    (htrusted : hop ∈ hops → trusted hop) :
    originHop trusted hops remoteAddr = hop ↔
      (∀ hop ∈ hops, trusted hop) ∧ hops.head? = some hop := by
  rw [originHop]
  cases hfind : hops.reverse.find? (fun hop ↦ !trusted hop) with
  | none =>
    have hall : ∀ hop ∈ hops, trusted hop := by simpa using hfind
    rw [and_iff_right hall]
    cases hops with
    | nil => simp [hne]
    | cons first hops => simp
  | some other =>
    have hother := List.find?_some hfind
    have hmem : other ∈ hops := by simpa using List.mem_of_find?_eq_some hfind
    refine iff_of_false (fun h ↦ ?_) fun h ↦ ?_
    · obtain rfl : other = hop := h
      simp [htrusted hmem] at hother
    · simp [h.1 other hmem] at hother

/-- Where no side stops, each of them is left with its left-most hop. -/
theorem leftmost_eq_iff (hx : ∀ c ∈ forwardedFor, c ≠ '\x00')
    (hweb : Web.trusted trustedProxies remoteAddr) :
    (Web.hops forwardedFor).head?.getD remoteAddr =
        (Daemon.hops forwardedFor).head?.getD remoteAddr ↔
      ∀ field ∈ (forwardedFor.splitOn ',').find? (fun field ↦ !(Daemon.trimSpaces field).isEmpty),
        Php.trim field = Daemon.trimSpaces field := by
  have hhead (read : List Char → Addr) (fields : List (List Char)) :
      ((fields.map read).filter (fun hop ↦ !hop.isEmpty)).head? =
        (fields.find? (fun field ↦ !(read field).isEmpty)).map read := by
    rw [List.head?_filter, List.find?_map]
    rfl
  rw [Web.hops, daemon_hops_eq, hhead, hhead]
  cases hpick : (forwardedFor.splitOn ',').find?
      (fun field ↦ !(Daemon.trimSpaces field).isEmpty) with
  | none =>
    have hnone : (forwardedFor.splitOn ',').find?
        (fun field ↦ !(Php.trim field).isEmpty) = none := by
      apply List.find?_eq_none.mpr
      intro field hfield
      have hnil : Daemon.trimSpaces field = [] := by
        simpa using List.find?_eq_none.mp hpick field hfield
      rw [← trim_trimSpaces, hnil]
      decide
    rw [hnone]
    simp
  | some field =>
    obtain ⟨hne, before, after, hsplit, hbefore⟩ := List.find?_eq_some_iff_append.mp hpick
    simp only [Option.map_some, Option.getD_some, Option.mem_some_iff, forall_eq']
    constructor
    · intro heq
      cases hfirst : (forwardedFor.splitOn ',').find? (fun field ↦ !(Php.trim field).isEmpty) with
      | some first =>
        rw [hfirst, Option.map_some, Option.getD_some] at heq
        rw [← trim_trimSpaces, ← heq, trim_idem]
      | none =>
        -- the peer would be the hop, but it has no whitespace in it
        rw [hfirst, Option.map_none, Option.getD_none] at heq
        have hmem : field ∈ forwardedFor.splitOn ',' := List.mem_of_find?_eq_some hpick
        rw [heq] at hweb
        rw [← trim_trimSpaces]
        exact trim_eq_of_trusted hweb (ne_nul_of_trimSpaces hx hmem)
    · intro hread
      have hfirst : (forwardedFor.splitOn ',').find? (fun field ↦ !(Php.trim field).isEmpty) =
          some field := by
        apply List.find?_eq_some_iff_append.mpr
        refine ⟨by rw [hread]; exact hne, before, after, hsplit, fun f hf ↦ ?_⟩
        have hnil : Daemon.trimSpaces f = [] := by simpa using hbefore f hf
        rw [← trim_trimSpaces, hnil]
        decide
      rw [hfirst, Option.map_some, Option.getD_some, hread]

section Fields

variable {field : List Char}
  (hpick : (forwardedFor.splitOn ',').reverse.find? (fun field ↦
    Web.stops trustedProxies field || Daemon.stops trustedProxies field) = some field)

include hpick

theorem web_originHop (hw : Web.stops trustedProxies field) :
    originHop (Web.trusted trustedProxies) (Web.hops forwardedFor) remoteAddr =
      Php.trim field := by
  rw [originHop, find_web_hops, find?_of_or hpick hw]
  rfl

theorem daemon_originHop (hd : Daemon.stops trustedProxies field) :
    originHop (Daemon.trusted trustedProxies) (Daemon.hops forwardedFor) remoteAddr =
      Daemon.trimSpaces field := by
  simp only [Bool.or_comm (Web.stops _ _)] at hpick
  rw [originHop, find_daemon_hops, find?_of_or hpick hd]
  rfl

/-- The daemon goes on from the field at which the web interface stops. -/
theorem originHop_eq_iff_of_web (hw : Web.stops trustedProxies field) :
    originHop (Web.trusted trustedProxies) (Web.hops forwardedFor) remoteAddr =
        originHop (Daemon.trusted trustedProxies) (Daemon.hops forwardedFor) remoteAddr ↔
      ((Daemon.hops forwardedFor).reverse.find? (fun hop ↦ !Daemon.trusted trustedProxies hop)).or
        (Daemon.hops forwardedFor).head? = some (Php.trim field) := by
  have hmem : field ∈ forwardedFor.splitOn ',' := by
    simpa using List.mem_of_find?_eq_some hpick
  rw [web_originHop hpick hw, originHop_eq]
  have hhop := mem_daemon_hops_of_stops hmem hw
  cases hhops : Daemon.hops forwardedFor with
  | nil => simp [hhops] at hhop
  | cons first hops =>
    rw [List.head?_cons, Option.or_some, Option.getD_some, Option.some_inj]
    exact eq_comm

/-- The web interface goes on from the field at which the daemon stops. A hop that it reads as it
stands is one that it has passed over. -/
theorem originHop_eq_iff_of_daemon (hdaemon : Daemon.trusted trustedProxies remoteAddr)
    (hd : Daemon.stops trustedProxies field) (hw : Web.stops trustedProxies field = false) :
    originHop (Web.trusted trustedProxies) (Web.hops forwardedFor) remoteAddr =
        originHop (Daemon.trusted trustedProxies) (Daemon.hops forwardedFor) remoteAddr ↔
      (∀ hop ∈ Web.hops forwardedFor, Web.trusted trustedProxies hop) ∧
        (Web.hops forwardedFor).head? = some (Daemon.trimSpaces field) := by
  rw [daemon_originHop hpick hd]
  apply originHop_eq_iff_of_trusted
  · intro hpeer
    have huntrusted := (Bool.and_eq_true_iff.mp hd).2
    rw [← hpeer, hdaemon] at huntrusted
    cases huntrusted
  · intro hhop
    obtain ⟨hhop, hne⟩ := List.mem_filter.mp hhop
    obtain ⟨other, -, hother⟩ := List.mem_map.mp hhop
    have htrim : Php.trim field = Daemon.trimSpaces field := by
      rw [← trim_trimSpaces, ← hother, trim_idem]
    rw [Web.stops, htrim, hne] at hw
    simpa using hw

end Fields

/-- Where both sides trust the peer, they walk the same fields from the right. -/
theorem originHop_eq_iff_fieldsAgree (hx : ∀ c ∈ forwardedFor, c ≠ '\x00')
    (hweb : Web.trusted trustedProxies remoteAddr)
    (hdaemon : Daemon.trusted trustedProxies remoteAddr) :
    originHop (Web.trusted trustedProxies) (Web.hops forwardedFor) remoteAddr =
        originHop (Daemon.trusted trustedProxies) (Daemon.hops forwardedFor) remoteAddr ↔
      FieldsAgree forwardedFor trustedProxies := by
  rw [FieldsAgree]
  cases hpick : (forwardedFor.splitOn ',').reverse.find?
      (fun field ↦ Web.stops trustedProxies field || Daemon.stops trustedProxies field) with
  | none =>
    simp only [List.find?_eq_none, Bool.or_eq_true, not_or] at hpick
    have hnone : (forwardedFor.splitOn ',').reverse.find? (Web.stops trustedProxies) = none :=
      List.find?_eq_none.mpr fun field hfield ↦ (hpick field hfield).1
    have hnone' : (forwardedFor.splitOn ',').reverse.find? (Daemon.stops trustedProxies) = none :=
      List.find?_eq_none.mpr fun field hfield ↦ (hpick field hfield).2
    rw [originHop, originHop, find_web_hops, find_daemon_hops, hnone, hnone']
    exact leftmost_eq_iff hx hweb
  | some field =>
    have hstop := List.find?_some hpick
    dsimp only
    split_ifs with hd hw
    · exact originHop_eq_iff_of_web hpick (by simpa [hd] using hstop)
    · exact originHop_eq_iff_of_daemon hpick hdaemon (by simpa using hd) hw
    · rw [web_originHop hpick (by simpa using hw), daemon_originHop hpick (by simpa using hd)]

theorem originHop_zero (trusted : Addr → Bool) (remoteAddr : Addr) :
    originHop trusted (Daemon.hops ['0']) remoteAddr = ['0'] := by
  have hhops : Daemon.hops ['0'] = [['0']] := by
    rw [daemon_hops_eq]
    decide
  rw [hhops, originHop]
  cases hz : trusted ['0'] <;> simp [hz]

/-- The two functions return the same address exactly when the sides agree. -/
theorem getRemoteAddr_eq_clientAddress (remoteAddr forwardedFor trustedProxies : List Char)
    (hx : ∀ c ∈ forwardedFor, c ≠ '\x00') :
    Web.getRemoteAddr remoteAddr forwardedFor trustedProxies =
        Daemon.clientAddress remoteAddr forwardedFor trustedProxies ↔
      SidesAgree remoteAddr forwardedFor trustedProxies := by
  unfold Web.getRemoteAddr Daemon.clientAddress SidesAgree
  by_cases hempty : forwardedFor = []
  · simp [hempty, Php.isEmpty]
  have hheader : forwardedFor.isEmpty = false := by simpa using hempty
  have hzero : Php.isEmpty forwardedFor = decide (forwardedFor = ['0']) := by
    simp [Php.isEmpty, hempty]
  rw [or_iff_right hempty, hheader, hzero]
  cases hweb : Web.trusted trustedProxies remoteAddr with
  | false =>
    cases hdaemon : Daemon.trusted trustedProxies remoteAddr with
    | false => simp
    | true =>
      simp only [Bool.not_false, Bool.or_true, Bool.or_self, Bool.not_true, if_true,
        Bool.false_eq_true, if_false]
      rw [eq_comm, originHop_eq_peer_iff _ hdaemon]
  | true =>
    cases hdaemon : Daemon.trusted trustedProxies remoteAddr with
    | false =>
      simp only [Bool.not_false, Bool.or_true, Bool.or_false, Bool.not_true, if_true,
        decide_eq_true_eq]
      split_ifs with h
      · simp [h]
      · rw [originHop_eq_peer_iff _ hweb, or_iff_right h]
    | true =>
      simp only [Bool.or_false, Bool.not_true, decide_eq_true_eq, Bool.false_eq_true, if_false]
      split_ifs with h hagree
      · rw [h, originHop_zero]
      · exact originHop_eq_iff_of_agree hagree hx hdaemon
      · exact originHop_eq_iff_fieldsAgree hx hweb hdaemon

/-- A list of which only the web interface finds the second entry, and an unknown client. -/
theorem getRemoteAddr_eq_clientAddress_unknown :
    Web.getRemoteAddr ['p'] ['1', ',', ' ', 'p'] ['p', ' ', 'q', '\x0b'] = ['1'] ∧
      Daemon.clientAddress ['p'] ['1', ',', ' ', 'p'] ['p', ' ', 'q', '\x0b'] = ['1'] := by
  have htrusted : Daemon.trusted ['p', ' ', 'q', '\x0b'] =
      fun addr ↦ decide (addr ∈ [['p'], ['q', '\x0b']]) :=
    funext fun addr ↦ Daemon.trusted_eq_mem _ addr
  have hhops : Daemon.hops ['1', ',', ' ', 'p'] = [['1'], ['p']] := by
    rw [daemon_hops_eq]
    decide
  have hweb : Web.getRemoteAddr ['p'] ['1', ',', ' ', 'p'] ['p', ' ', 'q', '\x0b'] = ['1'] := by
    decide
  refine ⟨hweb, ?_⟩
  rw [← (getRemoteAddr_eq_clientAddress ['p'] ['1', ',', ' ', 'p'] ['p', ' ', 'q', '\x0b']
    (by simp)).mpr ?_, hweb]
  have hagree : ListsAgree ['1', ',', ' ', 'p'] ['p', ' ', 'q', '\x0b'] := by
    rw [ListsAgree, hhops, htrusted]
    decide
  rw [SidesAgree, htrusted]
  right
  rw [show Web.trusted ['p', ' ', 'q', '\x0b'] ['p'] = true by decide]
  dsimp only
  rw [show decide (['p'] ∈ [['p'], ['q', '\x0b']]) = true by decide, hhops]
  dsimp only
  rw [if_neg (by decide), if_pos hagree]
  decide

theorem getRemoteAddr_ne_clientAddress :
    ¬∀ remoteAddr forwardedFor trustedProxies : List Char,
      (∀ c ∈ forwardedFor, c ≠ '\x00' ∧ c ≠ '\r' ∧ c ≠ '\n') →
        Web.getRemoteAddr remoteAddr forwardedFor trustedProxies =
          Daemon.clientAddress remoteAddr forwardedFor trustedProxies := by
  intro h
  have hpeer : Daemon.trusted ['p'] ['p'] = true := by
    rw [← trusted_eq (by simp [PlainList])]
    decide
  have hweb : Web.getRemoteAddr ['p'] ['0'] ['p'] = ['p'] := by decide
  have hdaemon : Daemon.clientAddress ['p'] ['0'] ['p'] = ['0'] := by
    rw [Daemon.clientAddress, hpeer, originHop_zero]
    rfl
  have heq := h ['p'] ['0'] ['p'] (by simp)
  rw [hweb, hdaemon] at heq
  exact absurd heq (by decide)

end ZoneMinder.Auth
