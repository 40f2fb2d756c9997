import ZoneMinder.EventMove.Copy

namespace ZoneMinder.EventMove

open Lib

variable {sys : System} {F : Files} {f : Fates} {own : Bool} {w v : World} {new : Storage}
  {path oldPath : Path} {id : Option ℕ}

/-- What `rm -rf` takes with a path. -/
def Below (path other : Path) : Prop := other = path ∨ path ++ ['/'] <+: other

/-- Nothing before the commit fails, and it is not a move that has been made before. -/
structure Proceeds (sys : System) (f : Fates) (w : World) (new : Storage) : Prop where
  lock : f.lock = true
  save : f.save = true
  copies : Copies sys f w new

/-- The conditions on which a move that proceeds keeps the footage. -/
structure Sound (sys : System) (F : Files) (own : Bool) (f : Fates) (w : World)
    (new : Storage) : Prop where
  own : own = true
  commit : f.commit = true
  names : ∀ name ∈ F, dotted name = false
  target : ¬w.entry (sys.eventPath new) = .file
  plain : plain (sys.eventPath (sys.storage w.row)) = true
  apart : ¬Below (sys.eventPath (sys.storage w.row)) (sys.eventPath new)

/-- The event is in the area of a row, out of reach of `rm -rf`. -/
def Stays (sys : System) (F : Files) (oldPath : Path) (id : Option ℕ) (v : World) : Prop :=
  ∃ path, sys.area id = some path ∧ Holds v path F ∧
    ((∀ name, F.lookup name = none) ∨ plain oldPath = true ∧ ¬Below oldPath path)

/-- The event stays whatever becomes of the transaction, and of one's own nothing is left open. -/
structure Settled (sys : System) (F : Files) (oldPath : Path) (φ : Prop) (own : Bool)
    (v : World) : Prop where
  idle : own = true → v.pending = none
  committed : φ → Stays sys F oldPath v.committed v
  row : φ → Stays sys F oldPath v.row v

theorem eq_of_area (h : sys.area id = some path) : path = sys.eventPath (sys.storage id) := by
  rw [System.area] at h
  split_ifs at h
  exact (Option.some.inj h).symm

theorem row_of_idle (h : w.pending = none) : w.row = w.committed := by
  rw [World.row, h]
  rfl

theorem holds_empty (h : ∀ name, F.lookup name = none) (v : World) (path : Path) :
    Holds v path F := by
  intro name content hname
  rw [h name] at hname
  cases hname

theorem Stays.safe (h : Stays sys F oldPath v.committed v) : Safe sys F v := by
  obtain ⟨path, harea, hholds, -⟩ := h
  exact ⟨path, harea, hholds⟩

/-- What `rm -rf` comes to is not in the area. -/
theorem Stays.update (h : Stays sys F oldPath id v) (g : Entry → Entry)
    (hpath : ∃ word ∈ sys.rmWords oldPath, Below word path) :
    Stays sys F oldPath id (v.update path g) := by
  obtain ⟨area, harea, hholds, hempty | ⟨hplain, hapart⟩⟩ := h
  · exact ⟨area, harea, holds_empty hempty _ _, .inl hempty⟩
  · obtain ⟨word, hword, hbelow⟩ := hpath
    rw [System.rmWords, if_pos hplain, List.mem_singleton] at hword
    subst hword
    have hne : ¬area = path := by
      rintro rfl
      exact hapart hbelow
    refine ⟨area, harea, ?_, .inr ⟨hplain, hapart⟩⟩
    intro name content hname
    rw [World.files, World.update_entry_ne hne]
    exact hholds name content hname

/-- What `MoveTo` comes to: an error leaves the row and the old copy alone, and the footage is safe
whatever becomes of the transaction. -/
structure Moved (sys : System) (F : Files) (φ : Prop) (own : Bool) (w : World)
    (r : Option Error) (v : World) : Prop where
  error : ¬r = none → Intact w (sys.eventPath (sys.storage w.row)) v
  idle : own = true → v.pending = none
  safe : φ → Safe sys F v
  commit : φ → ∀ ok, Safe sys F (v.commit ok)

theorem Settled.moved {φ : Prop} (h : Settled sys F oldPath φ own v) :
    Moved sys F φ own w none v := by
  refine ⟨fun hr ↦ absurd rfl hr, h.idle, fun hφ ↦ (h.committed hφ).safe, fun hφ ok ↦ ?_⟩
  cases ok with
  | false => exact Stays.safe (v := v.commit false) (h.committed hφ)
  | true => exact Stays.safe (v := v.commit true) (h.row hφ)

/-- Where the source is missing the event had no files. -/
theorem Safe.empty (h : Safe sys F w) (hidle : w.pending = none)
    (habsent : System.present w (sys.area w.row) = false) (name : Name) :
    F.lookup name = none := by
  obtain ⟨path, harea, hholds⟩ := h
  rw [← row_of_idle hidle] at harea
  rw [harea, System.present, Option.any_some] at habsent
  by_contra hne
  obtain ⟨content, hcontent⟩ := Option.ne_none_iff_exists'.mp hne
  have hfiles := hholds name content hcontent
  cases hentry : w.entry path with
  | absent =>
    rw [World.files, hentry] at hfiles
    cases hfiles
  | file =>
    rw [hentry] at habsent
    cases habsent
  | dir files =>
    rw [hentry] at habsent
    cases habsent

/-- The copy that stands at the new path is the whole event. -/
theorem Copied.holds (hcopied : Copied sys f w new none v) (hsafe : Safe sys F w)
    (hidle : w.pending = none) (hsound : Sound sys F own f w new) :
    Holds v (sys.eventPath new) F := by
  obtain ⟨path, harea, hholds⟩ := hsafe
  have hpath := eq_of_area harea
  rw [← row_of_idle hidle] at hpath
  intro name content hname
  have hmem : name ∈ F := by
    apply AList.lookup_isSome.mp
    rw [hname]
    rfl
  have hlisted : (name, content) ∈ System.listed w (sys.eventPath (sys.storage w.row)) := by
    rw [mem_listed, ← hpath]
    exact ⟨hholds name content hname, hsound.names name hmem⟩
  exact (hcopied.brought rfl hsound.plain).files hsound.target _ hlisted

theorem Stays.of_empty (h : ∀ name, F.lookup name = none) (harea : sys.area id = some path) :
    Stays sys F oldPath id v := ⟨path, harea, holds_empty h v path, .inl h⟩

/-- The world after the save, and after the commit where the transaction is one's own. -/
def saved (own ok : Bool) (id : Option ℕ) (v : World) : World :=
  if own then (v.save id).commit ok else v.save id

/-- The event has come to the new path, or it had no files. -/
def Ready (sys : System) (F : Files) (own : Bool) (f : Fates) (w : World) (new : Storage)
    (v : World) : Prop :=
  (∀ name, F.lookup name = none) ∨
    Sound sys F own f w new ∧ Holds v (sys.eventPath new) F

theorem Ready.stays (h : Ready sys F own f w new v) (hsafe : Safe sys F w)
    (hnew : sys.area new.id = some (sys.eventPath new)) (hv : v.committed = w.committed) :
    Stays sys F (sys.eventPath (sys.storage w.row)) (saved own f.commit new.id v).committed
        (saved own f.commit new.id v) ∧
      Stays sys F (sys.eventPath (sys.storage w.row)) (saved own f.commit new.id v).row
        (saved own f.commit new.id v) := by
  obtain hempty | ⟨hsound, hholds⟩ := h
  · obtain ⟨path, harea, -⟩ := hsafe
    rw [← hv] at harea
    cases own with
    | false => exact ⟨.of_empty hempty harea, .of_empty hempty hnew⟩
    | true =>
      cases hok : f.commit with
      | false => exact ⟨.of_empty hempty harea, .of_empty hempty harea⟩
      | true => exact ⟨.of_empty hempty hnew, .of_empty hempty hnew⟩
  · obtain rfl := hsound.own
    rw [hsound.commit]
    have hstays : Stays sys F (sys.eventPath (sys.storage w.row)) new.id
        (saved true true new.id v) :=
      ⟨sys.eventPath new, hnew, hholds, .inr ⟨hsound.plain, hsound.apart⟩⟩
    exact ⟨hstays, hstays⟩

theorem Ready.settled {φ : Prop} (h : φ → Ready sys F own f w new v)
    (hsafe : φ → Safe sys F w) (hnew : sys.area new.id = some (sys.eventPath new))
    (hv : v.committed = w.committed) :
    Settled sys F (sys.eventPath (sys.storage w.row)) φ own (saved own f.commit new.id v) := by
  have hstays : φ → Stays sys F (sys.eventPath (sys.storage w.row))
        (saved own f.commit new.id v).committed (saved own f.commit new.id v) ∧
      Stays sys F (sys.eventPath (sys.storage w.row))
        (saved own f.commit new.id v).row (saved own f.commit new.id v) :=
    fun hφ ↦ (h hφ).stays (hsafe hφ) hnew hv
  refine ⟨fun hown ↦ ?_, fun hφ ↦ (hstays hφ).1, fun hφ ↦ (hstays hφ).2⟩
  rw [saved, if_pos hown]
  rfl

/-- What the copy comes to, if it is made at all. -/
structure Carried (sys : System) (F : Files) (φ : Prop) (own : Bool) (f : Fates) (w : World)
    (new : Storage) (r : Option Error) (v : World) : Prop where
  intact : Intact w (sys.eventPath (sys.storage w.row)) v
  ready : r = none → f.save = true → φ → Ready sys F own f w new v

section

variable {φ : Prop} (hidle : w.pending = none) (hsafe : φ → Safe sys F w)

include hidle hsafe

end

/-- The condition on a call: a move that proceeds is a sound one. -/
def Call.Kept (sys : System) (F : Files) : Call → World → Prop
  | .copyTo _ _, _ => True
  | .moveTo t f new, w =>
    Proceeds sys f w (sys.storage new) → Sound sys F (t = .own) f w (sys.storage new)

/-- A call that runs to its end, or that a crash cuts off after some of its steps. The server rolls
back what a crash leaves open. -/
def step (sys : System) (w : World) (call : Call × Option ℕ) : Option World :=
  match call.2 with
  | none => some (call.1.perform sys w).last
  | some k => (call.1.perform sys w).passed[k]?.map World.rollback

namespace Sample

def storage (id : Option ℕ) : Storage :=
  if id = some 1 then ⟨some 1, ['/', 'a'], false⟩
  else if id = some 2 then ⟨some 2, ['/', 'b'], false⟩
  else ⟨none, ['/', 'c'], false⟩

def areas : System where
  storage := storage
  storage_id id := by
    unfold storage
    split_ifs <;> simp_all
  relativePath := ['7']
  shell := ⟨fun _ _ ↦ [], fun _ ↦ []⟩

def footage : Files := AList.singleton ['m'] [1]

def world : World where
  entry path :=
    if path = ['/', 'a', '/', '7'] then .dir footage
    else if path = ['/', 'b'] then .dir ∅
    else .absent
  committed := some 1
  pending := none

/-- Nothing fails, and `rm` comes to the file and the directory. -/
def fates : Fates where
  canEdit := true
  lock := true
  mkdir := true
  connect := true
  connectOld := true
  upload _ := true
  makePath := true
  openDir := true
  torn _ := []
  copy _ := true
  save := true
  commit := true
  deleteKey := true
  removals := [(['/', 'a', '/', '7'], some ['m']), (['/', 'a', '/', '7'], none)]

theorem sound : Sound areas footage true fates world (areas.storage (some 2)) where
  own := rfl
  commit := rfl
  names name h := by
    rw [footage, ← AList.insert_empty, AList.mem_insert] at h
    obtain rfl := h.resolve_right (AList.notMem_empty name)
    rfl
  target := Entry.noConfusion
  plain := by decide
  apart := by
    rw [Below]
    decide

end Sample

end ZoneMinder.EventMove
