import OpenBlue.Base.Model.Buf
/-!
# Base — chains of fragments

The functions of `bt_buf.c` that read and extend the data of a chain:
`bt_buf_linearize`, `bt_buf_data_match` and `bt_buf_append_bytes`, over the
model of a pool. A loop over a chain makes no more rounds than the pool
has buffers.
-/

namespace OpenBlue

namespace Base

/-- `bt_buf_tailroom`. -/
def Buf.tailroom (b : Buf) : ℕ := b.size - b.headroom - b.bytes.length

/-- The data lies within the buffer, whose size has 16 bits. -/
def Buf.Fits (b : Buf) : Prop := b.headroom + b.bytes.length ≤ b.size ∧ b.size < 2 ^ 16

instance (b : Buf) : Decidable b.Fits := inferInstanceAs (Decidable (_ ∧ _))

/-- The inner loop of `bt_buf_data_match`: how many of the first `n` bytes
agree before the first difference. -/
def compareLoop : ℕ → List UInt8 → List UInt8 → ℕ
  | n + 1, d :: dptr, b :: bptr => if d ≠ b then 0 else compareLoop n dptr bptr + 1
  | _, _, _ => 0

namespace Pool

variable (p : Pool)

/-- `bt_buf_add_mem`. -/
def addMem (b : ℕ) (mem : List UInt8) : Pool :=
  p.set b { p.bufs b with bytes := (p.bufs b).bytes ++ mem }

/-- The loop of `bt_buf_frags_len`. -/
def fragsLenLoop : ℕ → Option ℕ → ℕ
  | fuel + 1, some b => (p.bufs b).bytes.length + fragsLenLoop fuel (p.bufs b).frags
  | _, _ => 0

/-- `bt_buf_frags_len`. -/
def fragsLen (buf : Option ℕ) : ℕ := p.fragsLenLoop p.bufCount buf

/-- The first loop of `bt_buf_linearize` and of `bt_buf_data_match`: the
fragment to start from, and the offset in it. -/
def seekLoop : ℕ → Option ℕ → ℕ → Option ℕ × ℕ
  | fuel + 1, some b, offset =>
    if (p.bufs b).bytes.length ≤ offset then
      seekLoop fuel (p.bufs b).frags (offset - (p.bufs b).bytes.length)
    else (some b, offset)
  | _, frag, offset => (frag, offset)

/-- The second loop of `bt_buf_linearize`: the bytes it copies. -/
def copyLoop : ℕ → Option ℕ → ℕ → ℕ → List UInt8
  | fuel + 1, some b, offset, len =>
    if 0 < len then
      let toCopy := min len ((p.bufs b).bytes.length - offset)
      ((p.bufs b).bytes.drop offset).take toCopy ++
        copyLoop fuel (p.bufs b).frags 0 (len - toCopy)
    else []
  | _, _, _, _ => []

/-- `bt_buf_linearize`: the bytes it writes to `dst`, as many as it
returns. -/
def linearize (dstLen : ℕ) (src : Option ℕ) (offset len : ℕ) : List UInt8 :=
  let (frag, offset) := p.seekLoop p.bufCount src offset
  p.copyLoop p.bufCount frag offset (min len dstLen)

/-- The second loop of `bt_buf_data_match`, with the data not compared
yet. -/
def matchLoop : ℕ → Option ℕ → ℕ → List UInt8 → ℕ
  | fuel + 1, some b, offset, data =>
    if 0 < data.length then
      let toCompare := min data.length ((p.bufs b).bytes.length - offset)
      let compared := compareLoop toCompare data ((p.bufs b).bytes.drop offset)
      if compared < toCompare then compared
      else compared + matchLoop fuel (p.bufs b).frags 0 (data.drop toCompare)
    else 0
  | _, _, _, _ => 0

/-- `bt_buf_data_match`; there may be no data. -/
def dataMatch (buf : Option ℕ) (offset : ℕ) (data : Option (List UInt8)) : ℕ :=
  match data with
  | none => 0
  | some data =>
    let (frag, offset) := p.seekLoop p.bufCount buf offset
    p.matchLoop p.bufCount frag offset data

/-- The allocation of `bt_buf_append_bytes`, with `len` bytes left: by the
callback, or from the pool. -/
def appendAlloc (allocateCb : Option (Pool → Pool × Option ℕ)) (len : ℕ) : Pool × Option ℕ :=
  match allocateCb with
  | some cb => cb p
  | none => p.allocLen (if p.maxAllocSize ≠ 0 then min len p.maxAllocSize else len)

/-- The loop of `bt_buf_append_bytes`: `value` is left to be added to
`frag`, and `addedLen` bytes have been. -/
def appendLoop (buf : ℕ) (allocateCb : Option (Pool → Pool × Option ℕ)) :
    ℕ → Pool → ℕ → List UInt8 → ℕ → Pool × ℕ
  | 0, p, _, _, addedLen => (p, addedLen)
  | fuel + 1, p, frag, value, addedLen =>
    let count := min value.length (p.bufs frag).tailroom % 2 ^ 16
    let p := p.addMem frag (value.take count)
    let value := value.drop count
    let addedLen := addedLen + count
    if value.length = 0 then (p, addedLen)
    else
      match p.appendAlloc allocateCb value.length with
      | (p, none) => (p, addedLen)
      | (p, some frag) =>
        appendLoop buf allocateCb fuel (p.fragAdd (some buf) frag).1 frag value addedLen

/-- `bt_buf_append_bytes`, and how many bytes it adds. A round that goes on
has taken another buffer. -/
def appendBytes (buf : ℕ) (value : List UInt8)
    (allocateCb : Option (Pool → Pool × Option ℕ)) : Pool × ℕ :=
  appendLoop buf allocateCb (p.bufCount + 1) p (p.fragLast buf) value 0

end Pool

end Base

end OpenBlue
