import Mathlib.Data.List.TakeDrop
import ZoneMinder.Lib.Run
import ZoneMinder.VideoStore.Playlist

namespace ZoneMinder.VideoStore

open Lib

/-- The whole playlist. -/
def playlist (fragments : List Fragment) (videoUrl : Text) (initSegmentEnd : ℤ)
    (isComplete : Bool) : Text :=
  m3u8Header (m3u8TargetDuration fragments) videoUrl initSegmentEnd isComplete ++
  fragments.flatMap (m3u8Fragment videoUrl) ++ if isComplete then endlist else []

section Chunks

variable {fragments : List Fragment} {initSegmentEnd : ℤ} {call : Call} {m : Manifest}

theorem chunks_rewrite : (chunks fragments initSegmentEnd call m false).flatten =
    playlist fragments call.videoUrl initSegmentEnd call.isComplete := by
  simp only [chunks, playlist, Bool.false_eq_true, if_false, List.drop_zero, List.flatten_append,
    List.flatten_cons, List.flatten_nil, List.append_nil, List.flatMap_def]
  cases call.isComplete <;> simp

theorem chunks_append (hopen : call.isComplete = false) :
    (chunks fragments initSegmentEnd call m true).flatten =
      (fragments.drop m.fragmentsWritten).flatMap (m3u8Fragment call.videoUrl) := by
  simp [chunks, hopen, List.flatMap_def]

end Chunks

/-- The first fragments under a header: what an unfinished playlist looks like. -/
def Manifest.text (m : Manifest) (fragments : List Fragment) : Text :=
  m3u8Header m.targetDuration m.videoUrl m.initSegmentEnd false ++
  (fragments.take m.fragmentsWritten).flatMap (m3u8Fragment m.videoUrl)

/-- The file is the one the manifest describes. -/
structure Manifest.Left (m : Manifest) (fragments : List Fragment) (files : Files) : Prop where
  bound : m.fragmentsWritten ≤ fragments.length
  file : 0 < m.fragmentsWritten →
    files (cStr m.path) = some (m.text fragments) ∧
      m.bytesWritten = (m.text fragments).length

/-- The file is the one the manifest describes if it has the size. -/
structure Manifest.Found (m : Manifest) (fragments : List Fragment) (files : Files) : Prop where
  bound : m.fragmentsWritten ≤ fragments.length
  file : 0 < m.fragmentsWritten → ∀ text, files (cStr m.path) = some text →
    text.length = m.bytesWritten → text = m.text fragments

/-- Whatever else touches a file removes it or changes its size. -/
def Disturbed (files found : Files) : Prop :=
  ∀ path, found path = files path ∨ (found path).map List.length ≠ (files path).map List.length

variable {fragments fresh : List Fragment} {initSegmentEnd : ℤ} {call : Call} {io : Io}
  {m : Manifest} {files found : Files}

theorem Manifest.Left.disturbed (h : m.Left fragments files) (hfound : Disturbed files found) :
    m.Found (fragments ++ fresh) found where
  bound := by
    rw [List.length_append]
    exact le_add_right h.bound
  file := by
    intro hwritten text htext hlength
    obtain ⟨hfile, hbytes⟩ := h.file hwritten
    have hsame : m.text (fragments ++ fresh) = m.text fragments := by
      rw [Manifest.text, Manifest.text, List.take_append_of_le_length h.bound]
    rcases hfound (cStr m.path) with heq | hsize
    · rw [htext, hfile] at heq
      rw [hsame]
      exact Option.some.inj heq
    · rw [htext, hfile, Option.map_some, Option.map_some, hlength, hbytes] at hsize
      exact absurd rfl hsize

theorem remembered_iff : remembered fragments initSegmentEnd call m = true ↔
    call.isComplete = false ∧ 0 < m.fragmentsWritten ∧ m.fragmentsWritten ≤ fragments.length ∧
      m3u8TargetDuration fragments = m.targetDuration ∧ initSegmentEnd = m.initSegmentEnd ∧
      call.videoUrl = m.videoUrl ∧ call.path = m.path := by
  simp only [remembered, Bool.and_eq_true, Bool.not_eq_true', decide_eq_true_eq, and_assoc]

theorem left_of_canAppend (h : m.Found fragments files)
    (happend : canAppend fragments initSegmentEnd call io m files = true) :
    m.Left fragments files where
  bound := h.bound
  file := by
    intro hwritten
    obtain ⟨hremembered, hstat⟩ := (Bool.and_eq_true _ _).mp happend
    obtain ⟨-, -, -, -, -, -, hpath⟩ := remembered_iff.mp hremembered
    obtain ⟨-, hsize⟩ := (Bool.and_eq_true _ _).mp hstat
    obtain ⟨text, htext, hlength⟩ := Option.map_eq_some_iff.mp (eq_of_beq hsize)
    rw [hpath] at htext
    obtain rfl := h.file hwritten text htext hlength
    exact ⟨htext, hlength.symm⟩

/-- A call that appends finds the playlist it would have written, less the new fragments. -/
theorem found_canAppend (h : m.Found fragments files)
    (happend : canAppend fragments initSegmentEnd call io m files = true) :
    call.isComplete = false ∧ ∃ text, files (cStr call.path) = some text ∧
      text ++ (fragments.drop m.fragmentsWritten).flatMap (m3u8Fragment call.videoUrl) =
        playlist fragments call.videoUrl initSegmentEnd call.isComplete := by
  obtain ⟨hopen, hwritten, -, hduration, hinit, hurl, hpath⟩ :=
    remembered_iff.mp ((Bool.and_eq_true _ _).mp happend).1
  obtain ⟨hfile, -⟩ := (left_of_canAppend h happend).file hwritten
  refine ⟨hopen, m.text fragments, by rw [hpath, hfile], ?_⟩
  rw [Manifest.text, playlist, hopen, hduration, hinit, hurl, List.append_assoc,
    ← List.flatMap_append, List.take_append_drop]
  exact (List.append_nil _).symm

/-- No fwrite falls short. -/
def Wrote (fragments : List Fragment) (initSegmentEnd : ℤ) (call : Call) (io : Io) (m : Manifest)
    (files : Files) : Prop :=
  let texts := chunks fragments initSegmentEnd call m
    (canAppend fragments initSegmentEnd call io m files)
  fwriteAll texts io.lost = texts.flatten

theorem closedText_iff (h : m.Found fragments files) :
    closedText fragments initSegmentEnd call io m files
        (canAppend fragments initSegmentEnd call io m files) =
      playlist fragments call.videoUrl initSegmentEnd call.isComplete ↔
    Wrote fragments initSegmentEnd call io m files := by
  unfold closedText Wrote
  cases happend : canAppend fragments initSegmentEnd call io m files with
  | false =>
    simp only [Bool.false_eq_true, if_false, List.nil_append, chunks_rewrite]
  | true =>
    obtain ⟨hopen, text, htext, hplaylist⟩ := found_canAppend h happend
    simp only [if_true, htext, Option.getD_some]
    rw [← hplaylist, chunks_append hopen]
    exact List.append_right_inj text

/-- A call whose own file operations succeed. One that finds nothing new to say makes none
but its stat. -/
def Succeeds (fragments : List Fragment) (initSegmentEnd : ℤ) (call : Call) (io : Io)
    (m : Manifest) (files : Files) : Prop :=
  upToDate fragments initSegmentEnd call io m files = false →
    io.opened = true ∧ Wrote fragments initSegmentEnd call io m files ∧ io.closed = true

/-- An fwrite falls short in a call whose fclose and last stat succeed, and the playlist goes
on. -/
def HidesLoss (fragments : List Fragment) (initSegmentEnd : ℤ) (call : Call) (io : Io)
    (m : Manifest) (files : Files) : Prop :=
  fragments ≠ [] ∧ upToDate fragments initSegmentEnd call io m files = false ∧
  io.opened = true ∧ ¬Wrote fragments initSegmentEnd call io m files ∧ io.closed = true ∧
  call.isComplete = false ∧ io.measured = true

theorem upToDate_iff : upToDate fragments initSegmentEnd call io m files = true ↔
    canAppend fragments initSegmentEnd call io m files = true ∧
      m.fragmentsWritten = fragments.length := by
  rw [upToDate, Bool.and_eq_true, beq_iff_eq]

theorem file_of_upToDate (h : m.Found fragments files)
    (hdone : upToDate fragments initSegmentEnd call io m files = true) :
    files (cStr call.path) =
      some (playlist fragments call.videoUrl initSegmentEnd call.isComplete) := by
  obtain ⟨happend, hall⟩ := upToDate_iff.mp hdone
  obtain ⟨-, text, htext, hplaylist⟩ := found_canAppend h happend
  rw [hall, List.drop_length, List.flatMap_nil, List.append_nil] at hplaylist
  rw [htext, hplaylist]

/-- A call that has succeeded leaves the whole playlist. -/
theorem writeM3U8_file (h : m.Found fragments files) (hne : fragments ≠ [])
    (hok : Succeeds fragments initSegmentEnd call io m files) :
    (writeM3U8 fragments initSegmentEnd call io m files).2 (cStr call.path) =
      some (playlist fragments call.videoUrl initSegmentEnd call.isComplete) := by
  unfold writeM3U8
  rw [if_neg hne]
  split
  · next hdone => exact file_of_upToDate h hdone
  · next hstale =>
    obtain ⟨hopened, hwrote, hclosed⟩ := hok (Bool.eq_false_iff.mpr hstale)
    simp only [hopened, hclosed, Bool.not_true, Bool.false_eq_true, if_true, if_false]
    have htext := (closedText_iff h).mpr hwrote
    split <;> simp only [Function.update_self, htext]

theorem Manifest.Left.forget (m : Manifest) (fragments : List Fragment) (files : Files) :
    Manifest.Left { m with fragmentsWritten := 0 } fragments files :=
  ⟨Nat.zero_le _, fun hwritten ↦ absurd hwritten (lt_irrefl 0)⟩

theorem left_remember (fragments : List Fragment) (initSegmentEnd : ℤ) (call : Call)
    (files : Files) :
    let text := playlist fragments call.videoUrl initSegmentEnd false
    (remember fragments initSegmentEnd call text).Left fragments
      (Function.update files (cStr call.path) (some text)) := by
  intro text
  have hsame : (remember fragments initSegmentEnd call text).text fragments = text := by
    simp only [Manifest.text, remember, text, playlist, List.take_length, Bool.false_eq_true,
      if_false, List.append_nil]
  refine ⟨le_rfl, fun _ ↦ ?_⟩
  rw [hsame]
  exact ⟨Function.update_self .., rfl⟩

/-- What is remembered is what is on disk, unless the call has hidden a loss. -/
theorem writeM3U8_left (h : m.Found fragments files)
    (hloss : ¬HidesLoss fragments initSegmentEnd call io m files) :
    (writeM3U8 fragments initSegmentEnd call io m files).1.Left fragments
      (writeM3U8 fragments initSegmentEnd call io m files).2 := by
  unfold writeM3U8
  split
  · next hnil =>
    refine ⟨h.bound, fun hwritten ↦ ?_⟩
    have hbound : m.fragmentsWritten ≤ 0 := by simpa only [hnil, List.length_nil] using h.bound
    exact absurd hwritten (Nat.not_lt.mpr hbound)
  next hne =>
  split
  · next hdone =>
    exact left_of_canAppend h (upToDate_iff.mp hdone).1
  next hstale =>
  split
  · exact .forget m fragments files
  next hopened =>
  dsimp only
  split
  · next hkept =>
    simp only [Bool.and_eq_true, Bool.not_eq_true'] at hkept
    obtain ⟨⟨hclosed, hopen⟩, hmeasured⟩ := hkept
    have hwrote : Wrote fragments initSegmentEnd call io m files := by
      by_contra hshort
      exact hloss ⟨hne, Bool.eq_false_iff.mpr hstale, by simpa using hopened, hshort, hclosed,
        hopen, hmeasured⟩
    have htext := (closedText_iff h).mpr hwrote
    rw [if_pos hclosed, htext, hopen]
    exact left_remember fragments initSegmentEnd call files
  · exact .forget m fragments _

theorem fwriteAll_nil (texts : List Text) : fwriteAll texts [] = texts.flatten := by
  induction texts with
  | nil => rfl
  | cons text texts ih =>
    rw [fwriteAll, List.headD_nil, Nat.sub_zero, List.take_length, List.tail_nil, ih,
      List.flatten_cons]

/-- An append that goes well keeps what it finds. -/
theorem writeM3U8_append
    (happend : canAppend fragments initSegmentEnd call {} m files = true) :
    (writeM3U8 fragments initSegmentEnd call {} m files).2 (cStr call.path) =
      (files (cStr call.path)).map
        (· ++ (fragments.drop m.fragmentsWritten).flatMap (m3u8Fragment call.videoUrl)) := by
  obtain ⟨hremembered, hstat⟩ := (Bool.and_eq_true _ _).mp happend
  obtain ⟨hopen, hwritten, hbound, -⟩ := remembered_iff.mp hremembered
  obtain ⟨-, hsize⟩ := (Bool.and_eq_true _ _).mp hstat
  obtain ⟨text, htext, -⟩ := Option.map_eq_some_iff.mp (eq_of_beq hsize)
  have hne : fragments ≠ [] := List.ne_nil_of_length_pos (hwritten.trans_le hbound)
  unfold writeM3U8
  rw [if_neg hne]
  split
  · next hdone =>
    rw [(upToDate_iff.mp hdone).2, List.drop_length, List.flatMap_nil, htext, Option.map_some,
      List.append_nil, ← htext]
  · have hclosed : closedText fragments initSegmentEnd call {} m files true =
        text ++ (fragments.drop m.fragmentsWritten).flatMap (m3u8Fragment call.videoUrl) := by
      rw [closedText, fwriteAll_nil, chunks_append hopen, htext]
      rfl
    simp only [happend, hopen, hclosed, htext, Bool.not_true, Bool.not_false, Bool.and_self,
      Bool.false_eq_true, if_true, if_false, Function.update_self, Option.map_some]

theorem playlist_append
    (hduration : m3u8TargetDuration (fragments ++ fresh) = m3u8TargetDuration fragments)
    (videoUrl : Text) :
    playlist (fragments ++ fresh) videoUrl initSegmentEnd false =
      playlist fragments videoUrl initSegmentEnd false ++
        fresh.flatMap (m3u8Fragment videoUrl) := by
  simp only [playlist, hduration, List.flatMap_append, Bool.false_eq_true, if_false,
    List.append_nil, List.append_assoc]

theorem canAppend_remember {text : Text} (hne : fragments ≠ []) (hopen : call.isComplete = false)
    (hduration : m3u8TargetDuration (fragments ++ fresh) = m3u8TargetDuration fragments)
    (htext : files (cStr call.path) = some text) :
    canAppend (fragments ++ fresh) initSegmentEnd call {}
      (remember fragments initSegmentEnd call text) files = true := by
  refine (Bool.and_eq_true _ _).mpr ⟨remembered_iff.mpr ?_, ?_⟩
  · refine ⟨hopen, List.length_pos_iff.mpr hne, ?_, hduration, rfl, rfl, rfl⟩
    rw [List.length_append]
    exact le_add_right le_rfl
  · rw [htext, Option.map_some]
    exact beq_self_eq_true _

/-- A hidden loss stays in the file, whatever is appended later. -/
theorem writeM3U8_of_hidesLoss (h : m.Found fragments files)
    (hloss : HidesLoss fragments initSegmentEnd call io m files)
    (hduration : m3u8TargetDuration (fragments ++ fresh) = m3u8TargetDuration fragments) :
    let left := writeM3U8 fragments initSegmentEnd call io m files
    (writeM3U8 (fragments ++ fresh) initSegmentEnd call {} left.1 left.2).2 (cStr call.path) ≠
      some (playlist (fragments ++ fresh) call.videoUrl initSegmentEnd call.isComplete) := by
  intro left
  obtain ⟨hne, hstale, hopened, hshort, hclosed, hopen, hmeasured⟩ := hloss
  have hplaylist := fun heq ↦ hshort ((closedText_iff h).mp heq)
  generalize htext : closedText fragments initSegmentEnd call io m files
    (canAppend fragments initSegmentEnd call io m files) = text at hplaylist
  have hleft : left = (remember fragments initSegmentEnd call text,
      Function.update files (cStr call.path) (some text)) := by
    simp only [left, writeM3U8, hne, hstale, hopened, hclosed, hopen, hmeasured, htext,
      Bool.not_true, Bool.not_false, Bool.and_self, Bool.false_eq_true, if_true, if_false]
  have hfile : left.2 (cStr call.path) = some text := by
    rw [hleft]
    exact Function.update_self ..
  have happend : canAppend (fragments ++ fresh) initSegmentEnd call {} left.1 left.2 = true := by
    rw [hleft] at hfile ⊢
    exact canAppend_remember hne hopen hduration hfile
  have hwritten : left.1.fragmentsWritten = fragments.length := by rw [hleft]; rfl
  rw [writeM3U8_append happend, hfile, hwritten, Option.map_some, List.drop_left, hopen,
    playlist_append hduration]
  intro heq
  rw [hopen] at hplaylist
  exact hplaylist (List.append_cancel_right (Option.some.inj heq))

/-- The fragments of a recording, what is remembered of its playlist, and the files. -/
structure State where
  fragments : List Fragment := []
  manifest : Manifest := {}
  files : Files

/-- The next call, with the fragments recorded before it, the position of the init segment
and the files as they are then. -/
structure Round where
  fresh : List Fragment := []
  initSegmentEnd : ℤ
  found : Files
  call : Call
  io : Io := {}

def step (s : State) (r : Round) : State :=
  let fragments := s.fragments ++ r.fresh
  let (manifest, files) := writeM3U8 fragments r.initSegmentEnd r.call r.io s.manifest r.found
  { fragments, manifest, files }

def Round.Succeeds (r : Round) (s : State) : Prop :=
  VideoStore.Succeeds (s.fragments ++ r.fresh) r.initSegmentEnd r.call r.io s.manifest r.found

def Round.HidesLoss (r : Round) (s : State) : Prop :=
  VideoStore.HidesLoss (s.fragments ++ r.fresh) r.initSegmentEnd r.call r.io s.manifest r.found

/-- The file of the call is the whole playlist. -/
def Round.Written (r : Round) (s : State) : Prop :=
  (step s r).files (cStr r.call.path) =
    some (playlist (s.fragments ++ r.fresh) r.call.videoUrl r.initSegmentEnd r.call.isComplete)

variable {s t : State} {r : Round} {rounds : List Round}

/-- Runs of calls that hide no loss. -/
abbrev Lossless : State → List Round → State → Prop :=
  Run (fun s r ↦ some (step s r)) fun s r ↦ Disturbed s.files r.found ∧ ¬r.HidesLoss s

theorem Lossless.left (h : Lossless { files := files } rounds s) :
    s.manifest.Left s.fragments s.files := by
  refine Run.invariant (I := fun s ↦ s.manifest.Left s.fragments s.files) h ?_ ?_
  · rintro s r t hs ⟨hfound, hloss⟩ ht
    obtain rfl := Option.some.inj ht
    exact writeM3U8_left (hs.disturbed hfound) hloss
  · exact .forget {} [] files

theorem Round.succeeds_of_io (s : State) (hio : r.io = {}) : r.Succeeds s := by
  intro _
  rw [hio, Wrote]
  exact ⟨rfl, fwriteAll_nil _, rfl⟩

theorem Round.not_written_next (hs : s.manifest.Found (s.fragments ++ r.fresh) r.found)
    (hloss : r.HidesLoss s)
    (hduration : m3u8TargetDuration (s.fragments ++ r.fresh ++ fresh) =
      m3u8TargetDuration (s.fragments ++ r.fresh)) :
    ¬Round.Written { r with fresh := fresh, found := (step s r).files, io := {} } (step s r) :=
  writeM3U8_of_hidesLoss hs hloss hduration

/-- While no call hides a loss, every call that succeeds leaves the whole playlist. A call
that hides one is followed by calls that succeed and do not, as long as the target duration
stays. -/
theorem playlist_written (h : Lossless { files := files } rounds s)
    (hfound : Disturbed s.files r.found) :
    (s.fragments ++ r.fresh ≠ [] → r.Succeeds s → r.Written s) ∧
    (r.HidesLoss s → ∀ fresh, m3u8TargetDuration (s.fragments ++ r.fresh ++ fresh) =
        m3u8TargetDuration (s.fragments ++ r.fresh) →
      let next := { r with fresh := fresh, found := (step s r).files, io := {} }
      next.Succeeds (step s r) ∧ ¬next.Written (step s r)) := by
  have hs : s.manifest.Found (s.fragments ++ r.fresh) r.found := (Lossless.left h).disturbed hfound
  refine ⟨fun hne hok ↦ writeM3U8_file hs hne hok, fun hloss fresh hduration ↦ ?_⟩
  exact ⟨Round.succeeds_of_io _ rfl, Round.not_written_next hs hloss hduration⟩

def firstRound (io : Io) : Round where
  fresh := [⟨1024, 40000, 1⟩]
  initSegmentEnd := 1024
  found := fun _ ↦ none
  call := ⟨"index.m3u8".toList, "v.mp4".toList, false⟩
  io := io

def secondRound (found : Files) : Round :=
  { firstRound {} with fresh := [⟨41024, 40000, 1⟩], found := found }

/-- The last stat of the first call fails, and the second call writes everything again. -/
theorem playlist_written_again :
    let s := step { files := fun _ ↦ none } (firstRound { measured := false })
    (secondRound s.files).Written s := by
  intro s
  have hrun : Lossless { files := fun _ ↦ none } [firstRound { measured := false }] s :=
    .one ⟨fun _ ↦ .inl rfl, fun ⟨_, _, _, _, _, _, h⟩ ↦ Bool.false_ne_true h⟩ rfl
  have hne : s.fragments ++ (secondRound s.files).fresh ≠ [] :=
    List.append_ne_nil_of_right_ne_nil _ (List.cons_ne_nil _ _)
  exact (playlist_written hrun fun _ ↦ .inl rfl).1 hne (Round.succeeds_of_io s rfl)

theorem header_ne_nil (targetDuration : ℤ) (videoUrl : Text) (isComplete : Bool) :
    m3u8Header targetDuration videoUrl initSegmentEnd isComplete ≠ [] := by
  unfold m3u8Header
  simp only [ne_eq, List.append_eq_nil_iff, String.toList_eq_nil_iff, and_assoc]
  exact fun h ↦ absurd h.1 (by decide)

theorem not_wrote_of_lost (hrewrite : canAppend fragments initSegmentEnd call io m files = false)
    (hlost : io.lost = [1]) : ¬Wrote fragments initSegmentEnd call io m files := by
  intro hwrote
  rw [Wrote, hrewrite, hlost] at hwrote
  simp only [chunks, Bool.false_eq_true, if_false, List.cons_append, fwriteAll, List.headD_cons,
    List.tail_cons, fwriteAll_nil, List.flatten_cons] at hwrote
  have hlength := congrArg List.length (List.append_cancel_right hwrote)
  rw [List.length_take] at hlength
  have hpos := List.length_pos_iff.mpr (@header_ne_nil initSegmentEnd
    (m3u8TargetDuration fragments) call.videoUrl call.isComplete)
  omega

/-- The first call loses a byte of the header unnoticed, and the second appends a fragment to
what is left. -/
theorem header_cut_short :
    let s := step { files := fun _ ↦ none } (firstRound { lost := [1] })
    (secondRound s.files).Succeeds s ∧ ¬(secondRound s.files).Written s := by
  intro s
  refine ⟨Round.succeeds_of_io s rfl, ?_⟩
  have hfound : Manifest.Found {} (firstRound {}).fresh fun _ ↦ none :=
    ⟨Nat.zero_le _, fun hwritten ↦ absurd hwritten (lt_irrefl 0)⟩
  have hloss : (firstRound { lost := [1] }).HidesLoss { files := fun _ ↦ none } :=
    ⟨List.cons_ne_nil _ _, rfl, rfl, not_wrote_of_lost rfl rfl, rfl, rfl, rfl⟩
  have hduration : m3u8TargetDuration ((firstRound {}).fresh ++ (secondRound s.files).fresh) =
      m3u8TargetDuration (firstRound {}).fresh := by decide
  have hnext := Round.not_written_next hfound hloss hduration
  exact hnext

end ZoneMinder.VideoStore
