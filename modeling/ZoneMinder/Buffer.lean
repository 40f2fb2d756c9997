import ZoneMinder.Lib.Overwrite
import ZoneMinder.Lib.Run
import ZoneMinder.Lib.Words

namespace ZoneMinder

open Lib

/-- `mHead` and `mTail` are told by where they are in the block that `mStorage` points to. -/
structure Buffer where
  storage : Option Bytes
  allocation : ℕ
  size : ℕ
  head : ℕ
  tail : ℕ
  deriving DecidableEq

namespace Buffer

/-- `INT_MAX` -/
def kMaxAllocation : ℕ := 2 ^ 31 - 1

/-- A block from `new`, whose bytes nothing looks at before they are written. -/
def fresh (n : ℕ) : Bytes := List.replicate n 0

def null : Buffer := ⟨none, 0, 0, 0, 0⟩

def ofAllocation (n : ℕ) : Buffer := ⟨some (fresh n), n, 0, 0, 0⟩

/-- From bytes, or from what another buffer holds. -/
def ofData (data : Bytes) : Buffer := ⟨some data, data.length, data.length, 0, data.length⟩

/-- Bytes from elsewhere, or some of what the buffer itself holds. -/
inductive Source
  | data (bytes : Bytes)
  | own (offset count : ℕ)
  deriving DecidableEq

def block (b : Buffer) : Bytes := b.storage.getD []

def withBlock (b : Buffer) (block : Bytes) : Buffer :=
  { b with storage := b.storage.map fun _ ↦ block }

def content (b : Buffer) : Bytes := (b.block.drop b.head).take b.size

def Source.bytes (content : Bytes) : Source → Bytes
  | .data bytes => bytes
  | .own offset count => (content.drop offset).take count

def Source.length (b : Buffer) : Source → ℕ
  | .data bytes => bytes.length
  | .own offset count => min count (b.size - offset)

/-- `memcpy` from one place of a block to another, which may not overlap but be the same. -/
def memcpy (block : Bytes) (src dst n : ℕ) : Option Bytes :=
  if n = 0 then some block
  else if src = dst ∨ src + n ≤ dst ∨ dst + n ≤ src then (span block src n).bind (put block dst)
  else none

def memmove (block : Bytes) (src dst n : ℕ) : Option Bytes := (span block src n).bind (put block dst)

def tidy (b : Buffer) (level : Bool) : Option Buffer :=
  if b.head ≠ 0 then
    if b.size = 0 then some { b with head := 0, tail := 0 }
    else if level ∧ b.size < b.head then
      (memcpy b.block b.head 0 b.size).map fun block ↦
        { b.withBlock block with head := 0, tail := b.size }
    else some b
  else if b.size = 0 ∧ b.storage.isSome then (put b.block 0 [0]).map b.withBlock
  else some b

def clear (b : Buffer) : Buffer := { b with size := 0, head := 0, tail := 0 }

def consume (b : Buffer) (count : ℕ) : Option Buffer :=
  let count := if b.size < count then b.size else count
  tidy { b with head := b.head + count, size := b.size - count } false

def shrink (b : Buffer) (count : ℕ) : Option Buffer :=
  let count := if b.size < count then b.size else count
  let size := b.size - count
  tidy { b with size := size, tail := if b.head + size < b.tail then b.head + size else b.tail }
    false

def extract (b : Buffer) (n : ℕ) : Buffer :=
  let n := if b.size < n then b.size else n
  { b with head := b.head + n, size := b.size - n }

/-- Whether `expand` takes a new block. -/
def replaced (b : Buffer) (count : ℕ) : Bool :=
  decide (b.allocation - b.size < count) && decide (b.size + count ≤ kMaxAllocation)

def expand (b : Buffer) (count : ℕ) : Option Buffer :=
  let tailSpace := b.allocation - b.head - b.size
  if count ≤ tailSpace then some b
  else if count ≤ b.allocation - b.size then
    (memmove b.block b.head 0 b.size).map fun block ↦
      { b.withBlock block with head := 0, tail := b.size }
  else
    let needed := b.size + count
    if kMaxAllocation < needed then some b
    else (span b.block b.head b.size).map fun data ↦
      ⟨some (data ++ fresh count), needed, b.size, 0, b.size⟩

/-- `size` of a number -/
def sizeTo (b : Buffer) (n : ℕ) : Option Buffer :=
  if b.size < n then b.expand (n - b.size) else some b

/-- A source within the block is gone with it. -/
def assign (b : Buffer) (source : Source) : Option Buffer :=
  let n := source.length b
  let replaced := b.allocation < n
  let c : Buffer := if replaced then { b with storage := some (fresh n), allocation := n } else b
  let block := match source with
    | .data bytes => put c.block 0 bytes
    | .own offset _ => if replaced then none else memcpy c.block (b.head + offset) 0 n
  block.map fun block ↦ { c.withBlock block with size := n, head := 0, tail := n }

def append (b : Buffer) (source : Source) : Option Buffer :=
  let n := source.length b
  (b.expand n).bind fun c ↦
    let block := match source with
      | .data bytes => put c.block c.tail bytes
      | .own offset _ =>
        if b.replaced n then none else memcpy c.block (b.head + offset) c.tail n
    block.map fun block ↦ { c.withBlock block with tail := c.tail + n, size := c.size + n }

/-- What `read` brings is none where it fails. -/
def readInto (b : Buffer) (bytes : ℕ) (result : Option Bytes) : Option Buffer :=
  (b.expand bytes).bind fun c ↦
    if c.allocation - c.tail < bytes then some c
    else
      let data := (result.getD []).take bytes
      (put c.block c.tail data).map fun block ↦
        { c.withBlock block with tail := c.tail + data.length, size := c.size + data.length }

inductive Op
  | assign (source : Source)
  | append (source : Source)
  | consume (count : ℕ)
  | shrink (count : ℕ)
  | extract (n : ℕ)
  | expand (count : ℕ)
  | sizeTo (n : ℕ)
  | tidy (level : Bool)
  | clear
  | readInto (bytes : ℕ) (result : Option Bytes)
  | readIntoTimeout (ready : Bool) (bytes : ℕ) (result : Option Bytes)
  deriving DecidableEq

/-- None where memory outside the block is touched, or source and destination overlap. -/
def step (b : Buffer) : Op → Option Buffer
  | .assign source => b.assign source
  | .append source => b.append source
  | .consume count => b.consume count
  | .shrink count => b.shrink count
  | .extract n => some (b.extract n)
  | .expand count => b.expand count
  | .sizeTo n => b.sizeTo n
  | .tidy level => b.tidy level
  | .clear => some b.clear
  | .readInto bytes result => b.readInto bytes result
  | .readIntoTimeout ready bytes result => if ready then b.readInto bytes result else some b

/-- Whether the buffer can be made to hold so many bytes more. -/
def HasRoom (b : Buffer) (count : ℕ) : Prop :=
  count ≤ b.allocation - b.size ∨ b.size + count ≤ kMaxAllocation

instance (b : Buffer) (count : ℕ) : Decidable (b.HasRoom count) := inferInstanceAs (Decidable (_ ∨ _))

/-- What the operations do to a queue of bytes; `room` is whether there was some for a read. -/
def Op.fifo (room : ℕ → Bool) (queue : Bytes) : Op → Bytes
  | .assign source => source.bytes queue
  | .append source => queue ++ source.bytes queue
  | .consume count => queue.drop count
  | .shrink count => queue.take (queue.length - count)
  | .extract n => queue.drop n
  | .expand _ => queue
  | .sizeTo _ => queue
  | .tidy _ => queue
  | .clear => []
  | .readInto bytes result => if room bytes then queue ++ (result.getD []).take bytes else queue
  | .readIntoTimeout ready bytes result =>
    if ready ∧ room bytes then queue ++ (result.getD []).take bytes else queue

structure WF (b : Buffer) : Prop where
  length : b.block.length = b.allocation
  tail : b.tail = b.head + b.size
  bound : b.head + b.size ≤ b.allocation

/-- What an operation relies on. -/
def Safe (b : Buffer) : Op → Prop
  | .assign (.own offset count) =>
    let n := (Source.own offset count).length b
    n = 0 ∨ b.head + offset = 0 ∨ n ≤ b.head + offset
  | .append (.data bytes) => b.HasRoom bytes.length
  | .append (.own offset count) =>
    -- The bytes stay where they are, and the copy does not reach them.
    let n := (Source.own offset count).length b
    n = 0 ∨ n ≤ b.allocation - b.head - b.size ∨
      (n ≤ b.allocation - b.size ∧ b.size + n ≤ b.head + offset)
  | .consume _ => b.storage ≠ some []
  | .shrink _ => b.storage ≠ some []
  | .tidy _ => b.storage ≠ some []
  | _ => True

section Spec

variable {b c : Buffer} {block data : Bytes} {count n : ℕ} {source : Source}

theorem withBlock_block (h : block.length = b.block.length) : (b.withBlock block).block = block := by
  obtain ⟨storage, allocation, size, head, tail⟩ := b
  cases storage with
  | none => exact (List.length_eq_zero_iff.mp h).symm
  | some old => rfl

theorem WF.content_length (h : WF b) : b.content.length = b.size := by
  have hlength := h.length
  have hbound := h.bound
  rw [content, List.length_take, List.length_drop]
  omega

theorem Source.length_eq (h : WF b) (source : Source) :
    source.length b = (source.bytes b.content).length := by
  cases source with
  | data bytes => rfl
  | own offset count =>
    rw [Source.length, Source.bytes, List.length_take, List.length_drop, h.content_length]

/-- Bytes written to the front are all there is. -/
theorem overwritten (halloc : c.block.length = c.allocation) (hput : put c.block 0 data = some block) :
    WF { c.withBlock block with size := data.length, head := 0, tail := data.length } ∧
      content { c.withBlock block with size := data.length, head := 0, tail := data.length } =
        data := by
  have hlength := put_length hput
  have hblock := withBlock_block hlength
  have hfits : 0 + data.length ≤ c.block.length := (Option.ite_none_right_eq_some.mp hput).1
  rw [halloc] at hfits
  exact ⟨⟨(congrArg List.length hblock).trans (hlength.trans halloc), (Nat.zero_add _).symm, hfits⟩,
    (congrArg (List.take data.length) hblock).trans (take_put hput)⟩

/-- The block with the content moved to its front. -/
theorem WF.moved (h : WF b) (hput : put b.block 0 b.content = some block) :
    WF { b.withBlock block with head := 0, tail := b.size } ∧
      content { b.withBlock block with head := 0, tail := b.size } = b.content := by
  have hmoved := overwritten h.length hput
  rw [h.content_length] at hmoved
  exact hmoved

theorem WF.exists_moved (h : WF b) : ∃ block, put b.block 0 b.content = some block := by
  have hbound := h.bound
  obtain ⟨block, hput, -⟩ := @exists_put _ b.block b.content 0
    (by rw [h.content_length, h.length]; omega)
  exact ⟨block, hput⟩

theorem WF.span_content (h : WF b) : span b.block b.head b.size = some b.content :=
  span_of_le (by rw [h.length]; exact h.bound)

theorem WF.expand (h : WF b) (count : ℕ) :
    ∃ c, b.expand count = some c ∧ WF c ∧ c.content = b.content ∧ c.size = b.size ∧
      (count ≤ c.allocation - c.tail ↔ b.HasRoom count) := by
  have hbound := h.bound
  have htail := h.tail
  rw [Buffer.expand]
  simp only
  split_ifs with hroom hmove hrefused
  · refine ⟨b, rfl, h, rfl, rfl, ?_⟩
    rw [HasRoom]
    omega
  · obtain ⟨block, hput⟩ := h.exists_moved
    obtain ⟨hwf, hcontent⟩ := h.moved hput
    have hmemmove : memmove b.block b.head 0 b.size = some block := by
      rw [memmove, h.span_content]
      exact hput
    refine ⟨_, by rw [hmemmove]; rfl, hwf, hcontent, rfl, ?_⟩
    rw [HasRoom]
    exact ⟨fun _ ↦ .inl hmove, fun _ ↦ hmove⟩
  · refine ⟨b, rfl, h, rfl, rfl, ?_⟩
    rw [HasRoom]
    omega
  · refine ⟨⟨some (b.content ++ fresh count), b.size + count, b.size, 0, b.size⟩,
      by rw [h.span_content]; rfl, ⟨?_, ?_, ?_⟩, ?_, rfl, ?_⟩
    · simp [Buffer.block, fresh, h.content_length]
    · simp
    · simp
    · exact List.take_left' h.content_length
    · have hleft : b.size + count - b.size = count := Nat.add_sub_cancel_left b.size count
      simp only [hleft, le_refl, true_iff]
      exact .inr (not_lt.mp hrefused)

/-- Bytes written behind the content are the end of it. -/
theorem WF.written (h : WF c) (hput : put c.block c.tail data = some block) :
    WF { c.withBlock block with tail := c.tail + data.length, size := c.size + data.length } ∧
      content { c.withBlock block with
        tail := c.tail + data.length, size := c.size + data.length } = c.content ++ data := by
  have hlength := put_length hput
  have hblock := withBlock_block hlength
  have htail := h.tail
  have hfits : c.tail + data.length ≤ c.block.length := (Option.ite_none_right_eq_some.mp hput).1
  rw [h.length] at hfits
  constructor
  · refine ⟨?_, ?_, ?_⟩
    · exact (congrArg List.length hblock).trans (hlength.trans h.length)
    · change c.tail + data.length = c.head + (c.size + data.length)
      omega
    · change c.head + (c.size + data.length) ≤ c.allocation
      omega
  · have hdrop := drop_put (n := c.head) hput (by omega)
    rw [htail, Nat.add_sub_cancel_left] at hdrop
    exact (congrArg (fun l ↦ (l.drop c.head).take (c.size + data.length)) hblock).trans hdrop

theorem WF.tidy (h : WF b) (hstorage : b.storage ≠ some []) (level : Bool) :
    ∃ c, b.tidy level = some c ∧ WF c ∧ c.content = b.content := by
  have hbound := h.bound
  rw [Buffer.tidy]
  split_ifs with hhead hempty hlevel hsome
  · refine ⟨_, rfl, ⟨h.length, ?_, ?_⟩, ?_⟩
    · simp [hempty]
    · simp [hempty]
    · simp [content, hempty]
  · obtain ⟨block, hput⟩ := h.exists_moved
    obtain ⟨hwf, hcontent⟩ := h.moved hput
    have hmemcpy : memcpy b.block b.head 0 b.size = some block := by
      rw [memcpy, if_neg hempty, if_pos (by omega), h.span_content]
      exact hput
    exact ⟨_, by rw [hmemcpy]; rfl, hwf, hcontent⟩
  · exact ⟨b, rfl, h, rfl⟩
  · have hpos : 0 < b.block.length := by
      obtain ⟨block, hblock⟩ := Option.isSome_iff_exists.mp hsome.2
      rw [hblock] at hstorage
      rw [Buffer.block, hblock]
      exact List.length_pos_iff.mpr fun hnil ↦ hstorage (congrArg some hnil)
    obtain ⟨block, hput, hlength⟩ := @exists_put _ b.block [0] 0 hpos
    refine ⟨b.withBlock block, by rw [hput]; rfl, ⟨?_, h.tail, hbound⟩, ?_⟩
    · exact (congrArg List.length (withBlock_block hlength)).trans (hlength.trans h.length)
    · have hsize : (b.withBlock block).size = 0 := hsome.1
      rw [content, content, hsize, hsome.1, List.take_zero, List.take_zero]
  · exact ⟨b, rfl, h, rfl⟩

theorem WF.consumed (h : WF b) (hn : n ≤ b.size) :
    WF { b with head := b.head + n, size := b.size - n } ∧
      content { b with head := b.head + n, size := b.size - n } = b.content.drop n := by
  have hbound := h.bound
  have htail := h.tail
  refine ⟨⟨h.length, ?_, ?_⟩, ?_⟩
  · change b.tail = b.head + n + (b.size - n)
    omega
  · change b.head + n + (b.size - n) ≤ b.allocation
    omega
  · change (b.block.drop (b.head + n)).take (b.size - n) = b.content.drop n
    rw [content, List.drop_take, List.drop_drop]

theorem clamp_eq (m n : ℕ) : (if m < n then m else n) = min n m := by
  split_ifs <;> omega

theorem WF.drop_min (h : WF b) (n : ℕ) : b.content.drop (min n b.size) = b.content.drop n := by
  rcases Nat.le_total n b.size with hle | hle
  · rw [Nat.min_eq_left hle]
  · rw [Nat.min_eq_right hle, List.drop_of_length_le h.content_length.le,
      List.drop_of_length_le (h.content_length.trans_le hle)]

theorem WF.extract (h : WF b) (n : ℕ) :
    WF (b.extract n) ∧ (b.extract n).content = b.content.drop n := by
  rw [Buffer.extract]
  simp only [clamp_eq]
  rw [← h.drop_min]
  exact h.consumed (Nat.min_le_right n b.size)

theorem WF.consume (h : WF b) (hstorage : b.storage ≠ some []) (n : ℕ) :
    ∃ c, b.consume n = some c ∧ WF c ∧ c.content = b.content.drop n := by
  obtain ⟨hwf, hcontent⟩ := h.consumed (Nat.min_le_right n b.size)
  obtain ⟨c, hc, hwf', hsame⟩ := hwf.tidy hstorage false
  rw [Buffer.consume]
  simp only [clamp_eq]
  exact ⟨c, hc, hwf', by rw [hsame, hcontent, h.drop_min]⟩

theorem WF.shrink (h : WF b) (hstorage : b.storage ≠ some []) (n : ℕ) :
    ∃ c, b.shrink n = some c ∧ WF c ∧
      c.content = b.content.take (b.content.length - n) := by
  have hbound := h.bound
  have htail := h.tail
  have hmin : (if b.head + (b.size - min n b.size) < b.tail then
      b.head + (b.size - min n b.size) else b.tail) = b.head + (b.size - min n b.size) := by
    split_ifs <;> omega
  have hwf : WF { b with size := b.size - min n b.size,
                         tail := b.head + (b.size - min n b.size) } :=
    ⟨h.length, rfl, by change b.head + (b.size - min n b.size) ≤ b.allocation; omega⟩
  obtain ⟨c, hc, hwf', hsame⟩ := hwf.tidy hstorage false
  rw [Buffer.shrink]
  simp only [clamp_eq, hmin]
  refine ⟨c, hc, hwf', hsame.trans ?_⟩
  have hsize : b.size - n = b.size - min n b.size := by omega
  change (b.block.drop b.head).take (b.size - min n b.size) = _
  rw [h.content_length, content, List.take_take, Nat.min_eq_left (Nat.sub_le b.size n), hsize]

/-- What lies in the content, read where it lies. -/
theorem WF.span_own (h : WF b) {offset : ℕ} (hle : offset + n ≤ b.size) :
    span b.block (b.head + offset) n = some ((b.content.drop offset).take n) := by
  have hbound := h.bound
  rw [span_of_le (by rw [h.length]; omega), content, List.drop_take, List.take_take,
    List.drop_drop, Nat.min_eq_left (by omega)]

theorem Source.own_bytes (h : WF b) (offset count : ℕ) :
    (b.content.drop offset).take (min count (b.size - offset)) =
      (Source.own offset count).bytes b.content := by
  rw [Source.bytes, ← List.take_take, ← h.content_length, ← List.length_drop, List.take_length]

theorem WF.readInto (h : WF b) (bytes : ℕ) (result : Option Bytes) :
    ∃ c, b.readInto bytes result = some c ∧ WF c ∧ c.content =
      if b.HasRoom bytes then b.content ++ (result.getD []).take bytes else b.content := by
  obtain ⟨c, hc, hwf, hcontent, -, hroom⟩ := h.expand bytes
  rw [Buffer.readInto, hc, Option.bind_some]
  by_cases hfits : bytes ≤ c.allocation - c.tail
  · have hle : c.tail + ((result.getD []).take bytes).length ≤ c.block.length := by
      have hbound := hwf.bound
      have htail := hwf.tail
      rw [List.length_take, hwf.length]
      omega
    obtain ⟨block, hput, -⟩ := exists_put hle
    obtain ⟨hwf', hcontent'⟩ := hwf.written hput
    rw [if_neg (not_lt.mpr hfits), if_pos (hroom.mp hfits), ← hcontent]
    simp only [hput]
    exact ⟨_, rfl, hwf', hcontent'⟩
  · rw [if_pos (not_le.mp hfits), if_neg fun hyes ↦ hfits (hroom.mpr hyes)]
    exact ⟨c, rfl, hwf, hcontent⟩

theorem WF.append_data (h : WF b) {bytes : Bytes} (hroom : b.HasRoom bytes.length) :
    ∃ c, b.append (.data bytes) = some c ∧ WF c ∧ c.content = b.content ++ bytes := by
  obtain ⟨c, hc, hwf, hcontent, -, hfits⟩ := h.expand bytes.length
  have hle : c.tail + bytes.length ≤ c.block.length := by
    have hroom' := hfits.mpr hroom
    have hbound := hwf.bound
    have htail := hwf.tail
    rw [hwf.length]
    omega
  obtain ⟨block, hput, -⟩ := exists_put hle
  obtain ⟨hwf', hcontent'⟩ := hwf.written hput
  rw [Buffer.append, Source.length, hc, Option.bind_some, ← hcontent]
  simp only [hput]
  exact ⟨_, rfl, hwf', hcontent'⟩

theorem memcpy_eq {src dst : ℕ} (hspan : n ≠ 0 → span block src n = some data)
    (hlength : data.length = n) (hdst : dst ≤ block.length)
    (happart : n = 0 ∨ src = dst ∨ src + n ≤ dst ∨ dst + n ≤ src) :
    memcpy block src dst n = put block dst data := by
  rw [memcpy]
  split_ifs with hzero hcopy
  · rw [List.length_eq_zero_iff.mp (hlength.trans hzero), put_nil hdst]
  · rw [hspan hzero, Option.bind_some]
  · exact absurd (happart.resolve_left hzero) hcopy

/-- The copy of some of the content behind it, once there is room that leaves it where it is. -/
theorem WF.append_copy (h : WF b) {offset count : ℕ} (hwf : WF c)
    (hn : (Source.own offset count).length b = n) (hc : b.expand n = some c)
    (hcontent : c.content = b.content) (hreplaced : b.replaced n = false)
    (hfits : n ≤ c.allocation - c.tail)
    (hspan : n ≠ 0 → span c.block (b.head + offset) n =
      some ((Source.own offset count).bytes b.content))
    (happart : n = 0 ∨ b.head + offset + n ≤ c.tail ∨ c.tail + n ≤ b.head + offset) :
    ∃ c, b.append (.own offset count) = some c ∧ WF c ∧
      c.content = b.content ++ (Source.own offset count).bytes b.content := by
  have hlength : ((Source.own offset count).bytes b.content).length = n := by
    rw [← hn, Source.length_eq h]
  have hle : c.tail + ((Source.own offset count).bytes b.content).length ≤ c.block.length := by
    have hbound := hwf.bound
    have htail := hwf.tail
    rw [hwf.length, hlength]
    omega
  have hmemcpy : memcpy c.block (b.head + offset) c.tail n =
      put c.block c.tail ((Source.own offset count).bytes b.content) :=
    memcpy_eq hspan hlength (by omega) (by omega)
  obtain ⟨block, hput, -⟩ := exists_put hle
  obtain ⟨hwf', hcontent'⟩ := hwf.written hput
  rw [hlength, hcontent] at hcontent'
  rw [hlength] at hwf'
  rw [Buffer.append, hn, hc, Option.bind_some]
  simp only [hreplaced, hmemcpy, hput]
  exact ⟨_, rfl, hwf', hcontent'⟩

/-- Some of the content, read where it lies for a copy of all that is asked for. -/
theorem WF.span_source (h : WF b) {offset count : ℕ} (hn : (Source.own offset count).length b = n)
    (hpos : n ≠ 0) : offset + n ≤ b.size ∧
      span b.block (b.head + offset) n = some ((Source.own offset count).bytes b.content) := by
  rw [Source.length] at hn
  have hwithin : offset + n ≤ b.size := by omega
  refine ⟨hwithin, ?_⟩
  rw [h.span_own hwithin, ← Source.own_bytes h, ← hn]

theorem WF.append_own (h : WF b) {offset count : ℕ}
    (hsafe : b.Safe (.append (.own offset count))) :
    ∃ c, b.append (.own offset count) = some c ∧ WF c ∧
      c.content = b.content ++ (Source.own offset count).bytes b.content := by
  have hbound := h.bound
  have htail := h.tail
  obtain ⟨n, hn⟩ : ∃ n, (Source.own offset count).length b = n := ⟨_, rfl⟩
  have hread := fun hpos ↦ (h.span_source hn hpos).2
  have hwithin : n = 0 ∨ offset + n ≤ b.size := or_iff_not_imp_left.mpr fun hpos ↦
    (h.span_source hn hpos).1
  rw [Safe] at hsafe
  simp only [hn] at hsafe
  have hreplaced : b.replaced n = false := by
    rw [replaced, Bool.and_eq_false_iff]
    exact .inl (decide_eq_false (by omega))
  by_cases hroom : n ≤ b.allocation - b.head - b.size
  · have hexpand : b.expand n = some b := if_pos hroom
    exact h.append_copy h hn hexpand rfl hreplaced (by omega) hread (by omega)
  · have hfits : n ≤ b.allocation - b.size := by omega
    obtain ⟨block, hput⟩ := h.exists_moved
    obtain ⟨hwf, hcontent⟩ := h.moved hput
    have hmemmove : memmove b.block b.head 0 b.size = some block := by
      rw [memmove, h.span_content]
      exact hput
    have hexpand : b.expand n = some { b.withBlock block with head := 0, tail := b.size } := by
      rw [Buffer.expand]
      simp only
      rw [if_neg hroom, if_pos hfits, hmemmove]
      rfl
    have hlength := put_length hput
    have hdrop := drop_put_of_le (n := b.head + offset) hput (by rw [h.content_length]; omega)
    have hspan : span block (b.head + offset) n = span b.block (b.head + offset) n := by
      rw [span, span, hlength, hdrop]
    refine h.append_copy hwf hn hexpand hcontent hreplaced hfits (fun hpos ↦ ?_) (.inr (.inr ?_))
    · exact (congrArg (span · _ n) (withBlock_block hlength)).trans (hspan.trans (hread hpos))
    · change b.size + n ≤ b.head + offset
      omega

theorem exists_overwritten (halloc : c.block.length = c.allocation) (hle : n ≤ c.allocation)
    (hlength : data.length = n) : ∃ d, ((put c.block 0 data).map fun block ↦
      { c.withBlock block with size := n, head := 0, tail := n }) = some d ∧
      WF d ∧ d.content = data := by
  obtain ⟨block, hput, -⟩ := @exists_put _ c.block data 0 (by omega)
  rw [hput, ← hlength]
  exact ⟨_, rfl, overwritten halloc hput⟩

theorem WF.assign_data (h : WF b) (bytes : Bytes) :
    ∃ c, b.assign (.data bytes) = some c ∧ WF c ∧ c.content = bytes := by
  rw [Buffer.assign]
  by_cases hgrow : b.allocation < bytes.length
  · simp only [Source.length, hgrow, if_true]
    exact @exists_overwritten ⟨some (fresh bytes.length), bytes.length, b.size, b.head, b.tail⟩
      _ _ List.length_replicate le_rfl rfl
  · simp only [Source.length, hgrow, if_false]
    exact exists_overwritten h.length (not_lt.mp hgrow) rfl

theorem WF.assign_own (h : WF b) {offset count : ℕ}
    (hsafe : b.Safe (.assign (.own offset count))) :
    ∃ c, b.assign (.own offset count) = some c ∧ WF c ∧
      c.content = (Source.own offset count).bytes b.content := by
  have hbound := h.bound
  obtain ⟨n, hn⟩ : ∃ n, (Source.own offset count).length b = n := ⟨_, rfl⟩
  have hlength : ((Source.own offset count).bytes b.content).length = n := by
    rw [← hn, Source.length_eq h]
  have hle : n ≤ b.allocation := by
    rw [Source.length] at hn
    omega
  rw [Safe] at hsafe
  simp only [hn] at hsafe
  have hmemcpy : memcpy b.block (b.head + offset) 0 n =
      put b.block 0 ((Source.own offset count).bytes b.content) :=
    memcpy_eq (fun hpos ↦ (h.span_source hn hpos).2) hlength (Nat.zero_le _) (by omega)
  rw [Buffer.assign]
  simp only [hn, not_lt.mpr hle, if_false, hmemcpy]
  exact exists_overwritten h.length hle hlength

theorem WF.clear (h : WF b) : WF b.clear ∧ b.clear.content = [] :=
  ⟨⟨h.length, rfl, Nat.zero_le b.allocation⟩, rfl⟩

theorem WF.sizeTo (h : WF b) (n : ℕ) :
    ∃ c, b.sizeTo n = some c ∧ WF c ∧ c.content = b.content := by
  rw [Buffer.sizeTo]
  split_ifs with hgrow
  · obtain ⟨c, hc, hwf, hcontent, -, -⟩ := h.expand (n - b.size)
    exact ⟨c, hc, hwf, hcontent⟩
  · exact ⟨b, rfl, h, rfl⟩

/-- A step that keeps to what it relies on goes well, and does what the queue does. -/
theorem WF.step (h : WF b) {op : Op} (hsafe : b.Safe op) :
    ∃ c, step b op = some c ∧ WF c ∧
      c.content = op.fifo (fun n ↦ decide (b.HasRoom n)) b.content := by
  cases op with
  | assign source =>
    cases source with
    | data bytes => exact h.assign_data bytes
    | own offset count => exact h.assign_own hsafe
  | append source =>
    cases source with
    | data bytes => exact h.append_data hsafe
    | own offset count => exact h.append_own hsafe
  | consume count => exact h.consume hsafe count
  | shrink count => exact h.shrink hsafe count
  | extract n => exact ⟨_, rfl, h.extract n⟩
  | expand count =>
    obtain ⟨c, hc, hwf, hcontent, -, -⟩ := h.expand count
    exact ⟨c, hc, hwf, hcontent⟩
  | sizeTo n => exact h.sizeTo n
  | tidy level => exact h.tidy hsafe level
  | clear => exact ⟨_, rfl, h.clear⟩
  | readInto bytes result =>
    obtain ⟨c, hc, hwf, hcontent⟩ := h.readInto bytes result
    exact ⟨c, hc, hwf, by simp [Op.fifo, hcontent]⟩
  | readIntoTimeout ready bytes result =>
    cases ready with
    | false => exact ⟨b, rfl, h, by simp [Op.fifo]⟩
    | true =>
      obtain ⟨c, hc, hwf, hcontent⟩ := h.readInto bytes result
      exact ⟨c, hc, hwf, by simp [Op.fifo, hcontent]⟩

end Spec

section Runs

/-- What the constructors make. -/
inductive Made : Buffer → Bytes → Prop
  | null : Made null []
  | ofAllocation (n : ℕ) : Made (ofAllocation n) []
  | ofData (data : Bytes) : Made (ofData data) data

/-- A buffer next to the queue that it should be. -/
def tracked (s : Buffer × Bytes) (op : Op) : Option (Buffer × Bytes) :=
  (step s.1 op).map fun b ↦ (b, op.fifo (fun n ↦ decide (s.1.HasRoom n)) s.2)

def Holds (s : Buffer × Bytes) : Prop := WF s.1 ∧ s.1.content = s.2

variable {b : Buffer} {queue : Bytes} {s t : Buffer × Bytes} {op : Op} {ops : List Op}

theorem Made.holds (h : Made b queue) : Holds (b, queue) := by
  cases h with
  | null => exact ⟨⟨rfl, rfl, le_rfl⟩, rfl⟩
  | ofAllocation n => exact ⟨⟨List.length_replicate, rfl, Nat.zero_le n⟩, rfl⟩
  | ofData => exact ⟨⟨rfl, (Nat.zero_add _).symm, (Nat.zero_add _).le⟩, List.take_length⟩

theorem Holds.tracked (h : Holds s) (hsafe : s.1.Safe op) : ∃ t, tracked s op = some t ∧ Holds t := by
  obtain ⟨c, hc, hwf, hcontent⟩ := h.1.step hsafe
  exact ⟨_, by rw [Buffer.tracked, hc]; rfl, hwf, hcontent.trans (by rw [h.2])⟩

theorem Holds.run (h : Holds s) (hrun : Run Buffer.tracked (fun s op ↦ s.1.Safe op) s ops t) :
    Holds t := by
  refine hrun.invariant (fun s op t hs hsafe hstep ↦ ?_) h
  obtain ⟨t', ht', hholds⟩ := hs.tracked hsafe
  rwa [← Option.some.inj (ht'.symm.trans hstep)]

/-- However a buffer was made and used, if room is there for what is appended, what is consumed
does not leave an empty block and no source of its own is moved: the head and the tail are within
the allocation, no step writes outside it, and the content is the queue. -/
theorem within_allocation (h : Made b queue)
    (hrun : Run Buffer.tracked (fun s op ↦ s.1.Safe op) (b, queue) ops s) :
    (s.1.block.length = s.1.allocation ∧ s.1.tail = s.1.head + s.1.size ∧
      s.1.tail ≤ s.1.allocation) ∧ s.1.content = s.2 ∧
    ∀ op, s.1.Safe op → (step s.1 op).isSome := by
  obtain ⟨hwf, hcontent⟩ := h.holds.run hrun
  refine ⟨⟨hwf.length, hwf.tail, hwf.tail.trans_le hwf.bound⟩, hcontent, fun op hsafe ↦ ?_⟩
  obtain ⟨c, hc, -⟩ := hwf.step hsafe
  exact Option.isSome_of_eq_some hc

theorem within_allocation_read :
    let b : Buffer := ⟨some [2, 3, 9, 8, 3, 9], 6, 6, 0, 6⟩
    b.content = [2, 3, 9, 8, 3, 9] ∧ (step b (.readInto 5 none)).isSome := by
  have hrun : Run tracked (fun s op ↦ s.1.Safe op) (null, [])
      [.append (.data [1, 2, 3]), .consume 1, .readInto 4 (some [9, 8]), .append (.own 1 2)]
      (⟨some [2, 3, 9, 8, 3, 9], 6, 6, 0, 6⟩, [2, 3, 9, 8, 3, 9]) := by
    refine .cons (t := (⟨some [1, 2, 3], 3, 3, 0, 3⟩, [1, 2, 3])) (.inr (by decide)) rfl ?_
    refine .cons (t := (⟨some [1, 2, 3], 3, 2, 1, 3⟩, [2, 3])) (fun h ↦ by cases h) rfl ?_
    refine .cons (t := (⟨some [2, 3, 9, 8, 0, 0], 6, 4, 0, 4⟩, [2, 3, 9, 8])) trivial rfl ?_
    exact .one (.inr (.inl (by decide))) rfl
  obtain ⟨-, hcontent, hstep⟩ := within_allocation .null hrun
  exact ⟨hcontent, hstep _ trivial⟩

/-- What is consumed of a buffer that was made with no room, and bytes appended for which
`expand` found no room. -/
theorem outside_allocation :
    (Made (ofAllocation 0) [] ∧ step (ofAllocation 0) (.consume 0) = none) ∧
      (Made null [] ∧ step null (.append (.data (List.replicate (2 ^ 31) 0))) = none) := by
  refine ⟨⟨.ofAllocation 0, rfl⟩, .null, ?_⟩
  have hrefused : null.expand (2 ^ 31) = some null := by decide +kernel
  rw [step, append, Source.length, List.length_replicate, hrefused, Option.bind_some]
  have hput : put null.block null.tail (List.replicate (2 ^ 31) 0) = none := by
    refine if_neg ?_
    rw [List.length_replicate]
    decide
  simp only [hput, Option.map_none]

end Runs

end Buffer
end ZoneMinder
