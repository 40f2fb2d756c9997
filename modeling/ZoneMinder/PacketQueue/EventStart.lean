import ZoneMinder.PacketQueue.Sound

namespace ZoneMinder.PacketQueue

open Lib Queue

variable {s : Queue} {p x b : Packet} {rest l lo hi low up : List Packet} {snapshot : WithTop ℕ} {n : ℕ}

theorem from?_split {position : WithTop ℕ} (hf : s.from? position = some (p, rest)) :
    ∃ lo, s.pktQueue = lo ++ p :: rest ∧ p.position = position := by
  unfold from? at hf
  split at hf
  · contradiction
  · next q l hd =>
    obtain ⟨rfl, rfl⟩ := Prod.mk.inj (Option.some.inj hf)
    refine ⟨s.pktQueue.takeWhile (·.position ≠ position), ?_, ?_⟩
    · rw [← hd, List.takeWhile_append_dropWhile]
    · have hhead :=
        List.head?_dropWhile_not (fun p : Packet ↦ decide (p.position ≠ position)) s.pktQueue
      rw [hd] at hhead
      simpa using hhead

theorem back?_split {position : WithTop ℕ} (hb : s.back? position = some l) :
    ∃ lo p hi, s.pktQueue = lo ++ p :: hi ∧ p.position = position ∧ l = p :: lo.reverse := by
  obtain ⟨⟨p, rest⟩, hf, hb⟩ := Option.bind_eq_some_iff.mp hb
  obtain rfl := Option.some.inj hb
  obtain ⟨lo, hq, hp⟩ := from?_split hf
  refine ⟨s.pktQueue.takeWhile (·.position ≠ position), p, rest, ?_, hp, rfl⟩
  unfold from? at hf
  split at hf
  · contradiction
  · next q l hd =>
    obtain ⟨rfl, rfl⟩ := Prod.mk.inj (Option.some.inj hf)
    rw [← hd, List.takeWhile_append_dropWhile]

theorem back?_subset {position : WithTop ℕ} (hb : s.back? position = some l) : l ⊆ s.pktQueue := by
  obtain ⟨lo, p, hi, hq, -, rfl⟩ := back?_split hb
  intro x hx
  rw [hq]
  simp only [List.mem_append, List.mem_cons, List.mem_reverse] at hx ⊢
  tauto

theorem keyframeFrom_mem (hk : keyframeFrom s snapshot l = some p) :
    p ∈ l := by
  induction l with
  | nil => contradiction
  | cons k rest ih =>
    unfold keyframeFrom at hk
    split at hk
    · rw [← Option.some.inj hk]
      exact List.mem_cons_self
    split at hk
    · contradiction
    · exact List.mem_cons_of_mem k (ih hk)

theorem startOnKeyframe_mem (hp : p ∈ s.pktQueue) :
    s.startOnKeyframe p snapshot ∈ s.pktQueue := by
  unfold startOnKeyframe
  split
  · cases hk : keyframeFrom s snapshot (s.pktQueue.dropWhile (·.position ≠ p.position)) with
    | none => exact hp
    | some k => exact (List.dropWhile_sublist _).subset (keyframeFrom_mem hk)
  · exact hp

theorem keyframeBefore_mem (hl : l ⊆ s.pktQueue)
    (hk : s.keyframeBefore snapshot l = some p) : p ∈ s.pktQueue := by
  unfold keyframeBefore at hk
  split at hk
  · contradiction
  · next it low hb =>
    have hit : it ∈ s.pktQueue :=
      hl ((backUntil_suffix l).subset (hb ▸ List.mem_cons_self))
    split at hk
    · rwa [← Option.some.inj hk]
    split at hk
    · rw [← Option.some.inj hk]
      exact startOnKeyframe_mem hit
    · rwa [← Option.some.inj hk]

theorem eventAt_mem {r : ℕ × List Packet} (hl : r.2 ⊆ s.pktQueue)
    (he : s.eventAt snapshot r = some p) : p ∈ s.pktQueue := by
  obtain ⟨left, l⟩ := r
  cases l with
  | nil => contradiction
  | cons it low =>
    have hit : it ∈ s.pktQueue := hl List.mem_cons_self
    unfold eventAt at he
    dsimp only at he
    generalize (if s.isVideo it then left - 1 else left) = missing at he
    split at he
    · split at he
      · rw [← Option.some.inj he]
        exact startOnKeyframe_mem hit
      · rwa [← Option.some.inj he]
    split at he
    · exact keyframeBefore_mem hl he
    · rwa [← Option.some.inj he]

theorem eventStart_mem (he : s.eventStart snapshot n = some p) : p ∈ s.pktQueue := by
  obtain ⟨back, hback, he⟩ := Option.bind_eq_some_iff.mp he
  refine eventAt_mem (fun x hx ↦ back?_subset hback ?_) he
  obtain ⟨u, hu, -⟩ := @countBack_suffix _ s.isVideo s.isReleased n back
  rw [hu]
  exact List.mem_append_right u hx

theorem back?_of_split (h : Sound s) (hq : s.pktQueue = lo ++ x :: hi) :
    s.back? x.position = some (x :: lo.reverse) := by
  have hinc := h.increasing
  rw [hq] at hinc
  have htake := hinc.takeWhile_ne
  have hdrop := hinc.dropWhile_ne
  simp only [ne_eq, ← position_inj] at htake hdrop
  simp only [back?, from?, hq, ne_eq, htake, hdrop]
  rfl

theorem keyframeBefore_some (hl : l ≠ []) : ∃ p, s.keyframeBefore snapshot l = some p := by
  unfold keyframeBefore
  split
  · next hnil => exact absurd hnil (backUntil_ne_nil hl)
  · split
    · exact ⟨_, rfl⟩
    split
    · exact ⟨_, rfl⟩
    · exact ⟨_, rfl⟩

theorem eventAt_some {r : ℕ × List Packet} (hr : r.2 ≠ []) : ∃ p, s.eventAt snapshot r = some p := by
  obtain ⟨left, l⟩ := r
  cases l with
  | nil => contradiction
  | cons it low =>
    unfold eventAt
    dsimp only
    generalize (if s.isVideo it then left - 1 else left) = missing
    split
    · split
      · exact ⟨_, rfl⟩
      · exact ⟨_, rfl⟩
    split
    · exact keyframeBefore_some (List.cons_ne_nil it low)
    · exact ⟨it, rfl⟩

theorem eventStart_some (h : Sound s) (hx : x ∈ s.pktQueue) (n : ℕ) :
    ∃ p, s.eventStart x.position n = some p := by
  obtain ⟨lo, hi, hq⟩ := List.append_of_mem hx
  rw [eventStart, if_neg position_ne_top, back?_of_split h hq, Option.bind_eq_bind,
    Option.bind_some]
  exact eventAt_some (countBack_ne_nil (List.cons_ne_nil x lo.reverse))

theorem eventAt_encode (hk : s.keepKeyframes = false) (r : ℕ × List Packet) :
    s.eventAt snapshot r = r.2.head? := by
  obtain ⟨left, l⟩ := r
  cases l with
  | nil => rfl
  | cons it low => simp [eventAt, startOnKeyframe, hk]

theorem startOnKeyframe_self (h : Sound s) (hb : b ∈ s.pktQueue)
    (hkey : s.isVideoKeyframe b = true) : s.startOnKeyframe b snapshot = b := by
  obtain ⟨lo, hi, hq⟩ := List.append_of_mem hb
  have hinc := h.increasing
  rw [hq] at hinc
  have hdrop := hinc.dropWhile_ne
  simp only [ne_eq, ← position_inj] at hdrop
  unfold startOnKeyframe
  split
  · simp only [hq, ne_eq, hdrop, keyframeFrom, hkey, if_true, Option.getD_some]
  · rfl

theorem keyframeBefore_window {v : List Packet} (h : Sound s) (hb : b ∈ s.pktQueue)
    (hkey : s.isVideoKeyframe b = true) (hv : ∀ p ∈ v, s.isReleased p = false)
    (hvisible : s.isReleased b = false) :
    s.keyframeBefore snapshot (v ++ b :: low) =
      some ((v.dropWhile fun p ↦ !s.isVideoKeyframe p).headD b) := by
  have hw : ∀ p ∈ v.dropWhile (fun p ↦ !s.isVideoKeyframe p), s.isReleased p = false :=
    fun p hp ↦ hv p ((List.dropWhile_sublist _).subset hp)
  unfold keyframeBefore
  rw [backUntil_append hv hvisible hkey]
  cases hd : v.dropWhile (fun p ↦ !s.isVideoKeyframe p) with
  | nil =>
    dsimp only [List.nil_append, List.headD_nil]
    split
    · rfl
    split
    · rw [startOnKeyframe_self h hb hkey]
    · rfl
  | cons it w =>
    rw [hd] at hw
    obtain ⟨c, r, hc, hh⟩ := @exists_next _ s.isReleased w b low
    have hfront : atFront s.isReleased (it :: (w ++ b :: low)) = false := by
      rw [hc]
      exact hh (fun p hp ↦ hw p (List.mem_cons_of_mem it hp)) hvisible
    dsimp only [List.cons_append, List.headD_cons]
    rw [if_pos hfront]

theorem eventAt_counted (s : Queue) (snapshot : WithTop ℕ) (l : List Packet) :
    s.eventAt snapshot (0, l) = if s.keepKeyframes then s.keyframeBefore snapshot l else l.head? := by
  cases l with
  | nil => simp [eventAt, keyframeBefore, backUntil]
  | cons it low => simp [eventAt]

/-- With a window of `n` video packets between `b` and `x`, nothing released among them, an
event starts in that window, wherever the mark is. -/
theorem eventStart_window (h : Sound s) (hq : s.pktQueue = lo ++ x :: hi)
    (hsplit : lo ++ [x] = low ++ b :: up) (hvisible : ∀ p ∈ b :: up, s.isReleased p = false)
    (hn : n ≤ up.countP s.isVideo)
    (hkey : s.keepKeyframes = true → s.isVideoKeyframe b = true) :
    s.eventStart x.position n = some (if s.keepKeyframes then
        ((dropCounted s.isVideo n up.reverse).dropWhile fun p ↦ !s.isVideoKeyframe p).headD b
      else (dropCounted s.isVideo n up.reverse).headD b) := by
  have hback : x :: lo.reverse = up.reverse ++ b :: low.reverse := by
    have := congrArg List.reverse hsplit
    simpa using this
  have hup : ∀ p ∈ up.reverse, s.isReleased p = false := fun p hp ↦
    hvisible p (List.mem_cons_of_mem b (List.mem_reverse.mp hp))
  have hwalk := @countBack_append _ s.isVideo s.isReleased n b up.reverse low.reverse
    (by rwa [List.countP_reverse]) hup (hvisible b List.mem_cons_self)
  rw [eventStart, if_neg position_ne_top, back?_of_split h hq, Option.bind_eq_bind,
    Option.bind_some, hback, hwalk, eventAt_counted]
  split
  · next hk =>
    have hb : b ∈ s.pktQueue := by
      have hm : b ∈ lo ++ [x] := hsplit ▸ List.mem_append_right low List.mem_cons_self
      rw [hq]
      simp only [List.mem_append, List.mem_cons] at hm ⊢
      tauto
    exact keyframeBefore_window h hb (hkey hk)
      (fun p hp ↦ hup p ((dropCounted_suffix n _).subset hp)) (hvisible b List.mem_cons_self)
  · rw [List.head?_append, List.headD_eq_head?_getD]
    cases (dropCounted s.isVideo n up.reverse).head? <;> rfl

end ZoneMinder.PacketQueue
