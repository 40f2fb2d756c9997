import ZoneMinder.Auth.RemoteAddr
import ZoneMinder.Utils.Split

namespace ZoneMinder.Auth

open Lib

variable {remoteAddr claimed client hops trustedProxies : List Char}

open Utils in
theorem Daemon.splitTokens_of_head {delim : Char → Bool} {str : List Char} (atStart : Bool)
    (hne : str ≠ []) (hhead : ∀ c ∈ str.head?, delim c = false) :
    Daemon.splitTokens delim atStart str = pieces delim str := by
  induction hn : str.length using Nat.strong_induction_on generalizing str atStart with
  | _ n ih =>
    obtain ⟨word, gap, next, h⟩ := FirstRun.exists_of_head hne hhead
    have hfound : (if atStart ∧ word = [] ∧ word ≠ str then [] else [word]) = [word] := by
      simp [h.word_ne_nil]
    rw [Daemon.splitTokens, h.takeWhile_eq, hfound, h.pieces_eq]
    split
    next hrest =>
      rw [h.dropWhile_eq] at hrest
      rw [(List.append_eq_nil_iff.mp hrest).2]
      rfl
    next c rest hrest =>
      rw [h.dropWhile_eq] at hrest
      have hc : delim c = true := by
        cases hgap : gap with
        | nil => simp [hgap, h.next_nil hgap] at hrest
        | cons d gap =>
          obtain ⟨rfl, -⟩ : d = c ∧ _ := by simpa [hgap] using hrest
          exact h.gap_delim d (by simp [hgap])
      have hdrop : rest.dropWhile delim = next := by
        rw [← List.dropWhile_cons_of_pos hc, ← hrest, h.dropWhile_gap]
      rw [hdrop]
      by_cases hnil : next = []
      · rw [if_pos hnil, hnil]
        rfl
      · rw [if_neg hnil, ih next.length (hn ▸ h.length_lt) false hnil h.next_head rfl]
        rfl

theorem Daemon.splitTokens_eq {delim : Char → Bool} {str : List Char} (hne : str ≠ []) :
    Daemon.splitTokens delim true str = pieces delim str := by
  by_cases hhead : ∀ c ∈ str.head?, delim c = false
  · exact Daemon.splitTokens_of_head true hne hhead
  obtain ⟨c, rest, rfl⟩ := List.exists_cons_of_ne_nil hne
  have hc : delim c = true := by simpa using hhead
  have htoken : (c :: rest).takeWhile (fun c ↦ !delim c) = [] := by simp [hc]
  rw [Daemon.splitTokens, pieces_cons_of_pos hc, ← pieces_dropWhile, htoken,
    if_pos ⟨rfl, rfl, (List.cons_ne_nil _ _).symm⟩]
  split
  next hrest => simp [hc] at hrest
  next d rest' hrest =>
    obtain ⟨rfl, rfl⟩ : c = d ∧ rest = rest' := by simpa [hc] using hrest
    by_cases hnil : rest.dropWhile delim = []
    · rw [if_pos hnil, hnil]
      rfl
    · rw [if_neg hnil, Daemon.splitTokens_of_head false hnil fun e he ↦ head_dropWhile he]
      rfl

open Utils in
/-- The splitter without a limit, as it is read here, is the one of every caller. -/
theorem Daemon.split_zero (str delim : List Char) :
    split str delim 0 = some (Daemon.splitTokens (fun c ↦ c ∈ delim) true str) := by
  by_cases hne : str = []
  · rw [hne, split, splitFrom_of_none (by rfl), Daemon.splitTokens]
    simp [slice]
  rw [split, splitFrom_eq hne (by decide), if_pos (.inl rfl), Daemon.splitTokens_eq hne]

/-- An address of the list of proxies. -/
def Listed (trustedProxies : List Char) (addr : Addr) : Prop :=
  addr ∈ pieces Daemon.listSeparator trustedProxies

instance (trustedProxies : List Char) (addr : Addr) : Decidable (Listed trustedProxies addr) :=
  inferInstanceAs (Decidable (addr ∈ pieces Daemon.listSeparator trustedProxies))

/-- Hops that are trusted, with any blanks and empty fields between them. -/
def TrustedHops (trustedProxies hops : List Char) : Prop :=
  ∀ field ∈ hops.splitOn ',',
    Daemon.trimSpaces field = [] ∨ Listed trustedProxies (Daemon.trimSpaces field)

instance (trustedProxies hops : List Char) : Decidable (TrustedHops trustedProxies hops) :=
  inferInstanceAs (Decidable (∀ field ∈ hops.splitOn ',', _))

/-- An address as a proxy appends it. -/
structure IsHop (addr : Addr) : Prop where
  ne_nil : addr ≠ []
  no_comma : ',' ∉ addr
  no_blank_first : ∀ c ∈ addr.head?, Daemon.trimmed c = false
  no_blank_last : ∀ c ∈ addr.getLast?, Daemon.trimmed c = false

theorem Daemon.trusted_iff (trustedProxies : List Char) (addr : Addr) :
    Daemon.trusted trustedProxies addr ↔ Listed trustedProxies addr := by
  rw [Daemon.trusted_eq_mem, decide_eq_true_iff, Listed]

theorem IsHop.trimSpaces (h : IsHop client) : Daemon.trimSpaces client = client := by
  have hdrop : client.dropWhile Daemon.trimmed = client := by
    cases hclient : client with
    | nil => rfl
    | cons c addr =>
      rw [List.dropWhile_cons_of_neg (by simp [h.no_blank_first c (by simp [hclient])])]
  have hrdrop : client.rdropWhile Daemon.trimmed = client := by
    rw [List.rdropWhile_eq_self_iff]
    intro hne
    simp [h.no_blank_last _ (List.getLast?_eq_some_getLast hne)]
  rw [Daemon.trimSpaces, trim, hdrop, hrdrop]

/-- The walk from the right passes the trusted hops and stops at the address before them. -/
theorem clientAddress_appended (hpeer : Listed trustedProxies remoteAddr) (hclient : IsHop client)
    (huntrusted : ¬Listed trustedProxies client) (hhops : TrustedHops trustedProxies hops) :
    Daemon.clientAddress remoteAddr (claimed ++ ',' :: client ++ ',' :: hops) trustedProxies =
      client := by
  have hfields : (claimed ++ ',' :: client ++ ',' :: hops).splitOn ',' =
      claimed.splitOn ',' ++ client :: hops.splitOn ',' := by
    rw [List.splitOn_append_cons_self, List.splitOn_append_cons_self,
      List.splitOn_eq_singleton hclient.no_comma]
    simp
  have hskip : ∀ field ∈ (hops.splitOn ',').reverse,
      ¬(!(Daemon.trimSpaces field).isEmpty &&
        !Daemon.trusted trustedProxies (Daemon.trimSpaces field)) = true := by
    intro field hfield
    rcases hhops field (List.mem_reverse.mp hfield) with hempty | hlisted
    · simp [hempty]
    · simp [(Daemon.trusted_iff _ _).mpr hlisted]
  have hstop : (!(Daemon.trimSpaces client).isEmpty &&
      !Daemon.trusted trustedProxies (Daemon.trimSpaces client)) = true := by
    rw [← Daemon.trusted_iff] at huntrusted
    simp [hclient.trimSpaces, hclient.ne_nil, huntrusted]
  have hpick : ((claimed ++ ',' :: client ++ ',' :: hops).splitOn ',').reverse.find?
      (fun field ↦ !(Daemon.trimSpaces field).isEmpty &&
        !Daemon.trusted trustedProxies (Daemon.trimSpaces field)) = some client := by
    rw [hfields, List.reverse_append, List.reverse_cons, List.append_assoc, List.find?_append,
      List.find?_eq_none.mpr hskip, Option.none_or, List.singleton_append,
      List.find?_cons_of_pos (by exact hstop)]
  rw [Daemon.clientAddress, if_neg (by simp [(Daemon.trusted_iff _ _).mpr hpeer]), originHop,
    Daemon.hops, Daemon.splitAt_eq, find_hops, hpick, Option.map_some, Option.getD_some,
    hclient.trimSpaces]

theorem clientAddress_untrusted (hpeer : ¬Listed trustedProxies remoteAddr)
    (forwardedFor : List Char) :
    Daemon.clientAddress remoteAddr forwardedFor trustedProxies = remoteAddr := by
  rw [← Daemon.trusted_iff] at hpeer
  simp [Daemon.clientAddress, hpeer]

/-- What the client puts into the header does not matter. -/
theorem clientAddress_not_spoofed (remoteAddr trustedProxies : List Char) :
    (Listed trustedProxies remoteAddr →
      ∀ claimed client hops : List Char, IsHop client → ¬Listed trustedProxies client →
        TrustedHops trustedProxies hops →
        Daemon.clientAddress remoteAddr (claimed ++ ',' :: client ++ ',' :: hops) trustedProxies =
          client) ∧
    (¬Listed trustedProxies remoteAddr → ∀ forwardedFor : List Char,
      Daemon.clientAddress remoteAddr forwardedFor trustedProxies = remoteAddr) :=
  ⟨fun hpeer _ _ _ hclient huntrusted hhops ↦
      clientAddress_appended hpeer hclient huntrusted hhops,
    fun hpeer forwardedFor ↦ clientAddress_untrusted hpeer forwardedFor⟩

theorem clientAddress_not_spoofed_proxied :
    Daemon.clientAddress "10.0.0.1".toList
      ("127.0.0.1".toList ++ ',' :: "203.0.113.9".toList ++ ',' :: " 10.0.0.2,".toList)
      "10.0.0.1, 10.0.0.2".toList = "203.0.113.9".toList := by
  apply (clientAddress_not_spoofed _ _).1
  · decide
  · exact ⟨by decide, by decide, by simp [Daemon.trimmed], by simp [Daemon.trimmed]⟩
  · decide
  · decide

end ZoneMinder.Auth
