import Hcics.Basic
import Hcics.Lib.Framing

/-!
# The camera parser

`hcics_protocol_camera_feed` takes the bytes of a camera one by one. A camera frame is nine bytes: a
header, the mode, x and y with the high byte first, the width, the type and a tail. The parser is the
framer of `Framing` that keeps its frame in a buffer of nine bytes: it looks at the tail and the mode
only when the ninth byte is in, and drops all nine where they do not pass.

The bytes of a stream carry the tick at which they are fed. The parser and the target are never NULL
where the function is called.
-/

namespace Hcics

abbrev HCICS_CAM_FRAME_LEN : Nat := 9
abbrev HCICS_CAM_HEAD : UInt8 := 0xAA
abbrev HCICS_CAM_TAIL : UInt8 := 0x55

structure CameraParser where
  state : UInt8
  index : UInt8
  buf : Vector UInt8 HCICS_CAM_FRAME_LEN
  deriving DecidableEq, Repr

/-- Two bytes as one number, the high byte first. -/
def beWord (high low : UInt8) : UInt16 := high.toUInt16 <<< 8 ||| low.toUInt16

namespace CameraParser

/-- `hcics_protocol_camera_parser_init`. -/
def init : CameraParser := ⟨0, 0, Vector.replicate _ 0⟩

/-- `hcics_protocol_camera_feed`: the parser, what is written to the target, and the result. A write
past the end of `buf` would be lost here. -/
def feed (p : CameraParser) (byte : UInt8) (now : Tick) : CameraParser × Option CameraTarget × Bool :=
  if p.state = 0 then
    if byte = HCICS_CAM_HEAD then
      ({ state := 1, index := 1, buf := p.buf.set 0 byte }, none, false)
    else (p, none, false)
  else
    let p := { p with buf := p.buf.setIfInBounds p.index.toNat byte, index := p.index + 1 }
    if p.index.toNat < HCICS_CAM_FRAME_LEN then (p, none, false)
    else
      let p := { p with state := 0, index := 0 }
      if p.buf[8] ≠ HCICS_CAM_TAIL then (p, none, false)
      else
        let target : CameraTarget :=
          { mode := p.buf[1]
            x := beWord p.buf[2] p.buf[3]
            y := beWord p.buf[4] p.buf[5]
            width := p.buf[6]
            type := p.buf[7]
            tick := now }
        (p, some target, target.mode == HCICS_CAM_MODE_TRACK || target.mode == HCICS_CAM_MODE_CLEAN)

/-- The target of a call that returned `RT_TRUE`. -/
def accepted (r : CameraParser × Option CameraTarget × Bool) : List CameraTarget :=
  if r.2.2 then r.2.1.toList else []

/-- A stream, byte by byte, and the targets of the calls that returned `RT_TRUE`. -/
def run (p : CameraParser) : List (UInt8 × Tick) → CameraParser × List CameraTarget
  | [] => (p, [])
  | b :: s =>
    let r := p.feed b.1 b.2
    let t := run r.1 s
    (t.1, accepted r ++ t.2)

/-- The bytes of the frame begun. -/
def pending (p : CameraParser) : List UInt8 := p.buf.toList.take p.index.toNat

end CameraParser

/-! ## Camera frames -/

/-- A camera frame that the parser is meant to pass on. -/
structure CameraFrame where
  mode : UInt8
  x : UInt16
  y : UInt16
  width : UInt8
  type : UInt8
  mode_ok : mode = HCICS_CAM_MODE_TRACK ∨ mode = HCICS_CAM_MODE_CLEAN
  deriving DecidableEq, Repr

namespace CameraFrame

def encode (f : CameraFrame) : List UInt8 :=
  [HCICS_CAM_HEAD, f.mode, (f.x >>> 8).toUInt8, f.x.toUInt8, (f.y >>> 8).toUInt8, f.y.toUInt8,
    f.width, f.type, HCICS_CAM_TAIL]

/-- The target of a frame whose last byte was fed at `now`. -/
def target (f : CameraFrame) (now : Tick) : CameraTarget :=
  { mode := f.mode, x := f.x, y := f.y, width := f.width, type := f.type, tick := now }

end CameraFrame

/-- How camera frames lie in a stream of bytes. -/
def cameraBytes : Framing.Format UInt8 where
  head b := b == HCICS_CAM_HEAD
  len := HCICS_CAM_FRAME_LEN
  one_lt := by decide

/-- The same with the tick of every byte. -/
def cameraFormat : Framing.Format (UInt8 × Tick) := cameraBytes.comap Prod.fst

/-- The target of nine bytes, where the ninth is the tail and the mode is one of the two. -/
def decodeFrame : List (UInt8 × Tick) → Option CameraTarget
  | [_, mode, xh, xl, yh, yl, width, type, tail] =>
    if tail.1 = HCICS_CAM_TAIL ∧ (mode.1 = HCICS_CAM_MODE_TRACK ∨ mode.1 = HCICS_CAM_MODE_CLEAN) then
      some
        { mode := mode.1
          x := beWord xh.1 xl.1
          y := beWord yh.1 yl.1
          width := width.1
          type := type.1
          tick := tail.2 }
    else none
  | _ => none

/-! ## Two bytes as one number -/

theorem beWord_toNat (high low : UInt8) :
    (beWord high low).toNat = high.toNat * 256 + low.toNat := by
  have hh := high.toNat_lt
  have hl := low.toNat_lt
  have h8 : (8 : UInt16).toNat % 16 = 8 := rfl
  simp only [beWord, UInt16.toNat_or, UInt16.toNat_shiftLeft, UInt8.toNat_toUInt16, h8]
  rw [Nat.mod_eq_of_lt (by rw [Nat.shiftLeft_eq]; omega), ← Nat.shiftLeft_add_eq_or_of_lt hl,
    Nat.shiftLeft_eq]

theorem beWord_high (high low : UInt8) : (beWord high low >>> 8).toUInt8 = high := by
  apply UInt8.toNat_inj.mp
  have hh := high.toNat_lt
  have hl := low.toNat_lt
  have h8 : (8 : UInt16).toNat % 16 = 8 := rfl
  rw [UInt16.toNat_toUInt8, UInt16.toNat_shiftRight, h8, beWord_toNat, Nat.shiftRight_eq_div_pow]
  omega

theorem beWord_low (high low : UInt8) : (beWord high low).toUInt8 = low := by
  apply UInt8.toNat_inj.mp
  have hl := low.toNat_lt
  rw [UInt16.toNat_toUInt8, beWord_toNat]
  omega

theorem beWord_split (w : UInt16) : beWord (w >>> 8).toUInt8 w.toUInt8 = w := by
  apply UInt16.toNat_inj.mp
  have hw := w.toNat_lt
  have h8 : (8 : UInt16).toNat % 16 = 8 := rfl
  rw [beWord_toNat, UInt16.toNat_toUInt8, UInt16.toNat_toUInt8, UInt16.toNat_shiftRight, h8,
    Nat.shiftRight_eq_div_pow]
  omega

/-! ## The parser is the framer -/

namespace CameraParser

/-- The parser holds the frame begun with the bytes `pend`. -/
structure Holds (p : CameraParser) (pend : List (UInt8 × Tick)) : Prop where
  state : p.state = if pend = [] then 0 else 1
  index : p.index.toNat = pend.length
  framed : cameraFormat.Pending pend
  kept : p.buf.toList.take pend.length = pend.map Prod.fst

theorem init_holds : init.Holds [] :=
  ⟨rfl, rfl, Framing.Format.pending_nil, rfl⟩

theorem Holds.pending {p : CameraParser} {pend : List (UInt8 × Tick)} (h : p.Holds pend) :
    p.pending = pend.map Prod.fst := by
  rw [CameraParser.pending, h.index, h.kept]

theorem Holds.length_lt {p : CameraParser} {pend : List (UInt8 × Tick)} (h : p.Holds pend) :
    pend.length < 9 := h.framed.1

theorem take_set_succ {buf : List UInt8} {n : Nat} (h : n < buf.length) (byte : UInt8) :
    (buf.set n byte).take (n + 1) = buf.take n ++ [byte] := by
  rw [List.take_succ_eq_append_getElem (by simpa using h), List.take_set_of_le (le_refl n)]
  simp

theorem decodeFrame_buf {buf : Vector UInt8 9} {bytes : List (UInt8 × Tick)} {byte : UInt8 × Tick}
    (h : buf.toList = bytes.map Prod.fst ++ [byte.1]) :
    decodeFrame (bytes ++ [byte]) =
      if buf[8] = HCICS_CAM_TAIL ∧ (buf[1] = HCICS_CAM_MODE_TRACK ∨ buf[1] = HCICS_CAM_MODE_CLEAN) then
        some
          { mode := buf[1]
            x := beWord buf[2] buf[3]
            y := beWord buf[4] buf[5]
            width := buf[6]
            type := buf[7]
            tick := byte.2 }
      else none := by
  have hlen : bytes.length = 8 := by
    have := congrArg List.length h
    simpa using this.symm
  obtain ⟨b0, b1, b2, b3, b4, b5, b6, b7, rfl⟩ :
      ∃ b0 b1 b2 b3 b4 b5 b6 b7, bytes = [b0, b1, b2, b3, b4, b5, b6, b7] := by
    match bytes, hlen with
    | [b0, b1, b2, b3, b4, b5, b6, b7], _ => exact ⟨b0, b1, b2, b3, b4, b5, b6, b7, rfl⟩
  have hget : ∀ i (hi : i < 9), buf.toList[i]? = some buf[i] := by
    intro i hi
    rw [List.getElem?_eq_getElem (by simpa using hi), Vector.getElem_toList]
  have hbuf : ∀ i (hi : i < 9),
      [b0.1, b1.1, b2.1, b3.1, b4.1, b5.1, b6.1, b7.1, byte.1][i]? = some buf[i] := by
    intro i hi
    rw [← hget i hi, h]
    rfl
  have h1 := Option.some.inj (hbuf 1 (by decide))
  have h2 := Option.some.inj (hbuf 2 (by decide))
  have h3 := Option.some.inj (hbuf 3 (by decide))
  have h4 := Option.some.inj (hbuf 4 (by decide))
  have h5 := Option.some.inj (hbuf 5 (by decide))
  have h6 := Option.some.inj (hbuf 6 (by decide))
  have h7 := Option.some.inj (hbuf 7 (by decide))
  have h8 := Option.some.inj (hbuf 8 (by decide))
  rw [← h1, ← h2, ← h3, ← h4, ← h5, ← h6, ← h7, ← h8]
  rfl

/-- **One byte takes the parser as it takes the framer.** -/
theorem Holds.feed {p : CameraParser} {pend : List (UInt8 × Tick)} (h : p.Holds pend) (byte : UInt8)
    (now : Tick) :
    (p.feed byte now).1.Holds (cameraFormat.push pend (byte, now)).1 ∧
      accepted (p.feed byte now) =
        (cameraFormat.push pend (byte, now)).2.toList.filterMap decodeFrame := by
  have hpush := Framing.Format.push_pending h.framed (byte, now)
  cases pend with
  | nil =>
    have hstate : p.state = 0 := h.state
    by_cases hb : byte = HCICS_CAM_HEAD
    · have hnext : cameraFormat.push [] (byte, now) = ([(byte, now)], none) := by
        simp [Framing.Format.push, cameraFormat, Framing.Format.comap, cameraBytes, hb]
      simp only [hnext] at hpush ⊢
      have hfeed : p.feed byte now =
          ({ state := 1, index := 1, buf := p.buf.set 0 byte }, none, false) := by
        rw [CameraParser.feed, if_pos hstate, if_pos hb]
      rw [hfeed]
      refine ⟨⟨rfl, rfl, hpush, ?_⟩, rfl⟩
      rw [Vector.toList_set]
      exact take_set_succ (by simp) byte
    · have hnext : cameraFormat.push [] (byte, now) = ([], none) := by
        simp [Framing.Format.push, cameraFormat, Framing.Format.comap, cameraBytes, hb]
      have hfeed : p.feed byte now = (p, none, false) := by
        rw [CameraParser.feed, if_pos hstate, if_neg hb]
      rw [hnext, hfeed]
      exact ⟨h, rfl⟩
  | cons b pend =>
    have hstate : p.state = 1 := h.state
    have hlen := h.length_lt
    let buf := p.buf.setIfInBounds p.index.toNat byte
    have hindex : (p.index + 1).toNat = (b :: pend).length + 1 := by
      rw [UInt8.toNat_add, h.index]
      exact Nat.mod_eq_of_lt (by simp at hlen ⊢; omega)
    have hkept : buf.toList.take ((b :: pend).length + 1) = (b :: pend).map Prod.fst ++ [byte] := by
      rw [Vector.toList_setIfInBounds, h.index, take_set_succ (by simpa using hlen), h.kept]
    by_cases hmore : (b :: pend).length + 1 < 9
    · have hnext : cameraFormat.push (b :: pend) (byte, now) = (b :: pend ++ [(byte, now)], none) :=
        if_pos hmore
      have hfeed : p.feed byte now = ({ p with buf := buf, index := p.index + 1 }, none, false) := by
        rw [CameraParser.feed, if_neg (by rw [hstate]; decide)]
        exact if_pos (by rw [hindex]; exact hmore)
      rw [hnext] at hpush ⊢
      rw [hfeed]
      refine ⟨⟨hstate, ?_, hpush, ?_⟩, rfl⟩
      · rw [hindex, List.length_append]
        rfl
      · rw [List.length_append, List.map_append]
        exact hkept
    · have hnext : cameraFormat.push (b :: pend) (byte, now) =
          ([], some (b :: pend ++ [(byte, now)])) := if_neg hmore
      have hall : buf.toList = (b :: pend).map Prod.fst ++ [byte] := by
        rw [← hkept, List.take_of_length_le]
        simp only [Vector.length_toList, HCICS_CAM_FRAME_LEN]
        omega
      have hdecode := @decodeFrame_buf buf _ (byte, now) hall
      have hidx : ¬ (p.index + 1).toNat < HCICS_CAM_FRAME_LEN := by
        rw [hindex]
        exact hmore
      have hfeed : p.feed byte now =
          if buf[8] ≠ HCICS_CAM_TAIL then (⟨0, 0, buf⟩, none, false)
          else
            (⟨0, 0, buf⟩,
              some
                { mode := buf[1]
                  x := beWord buf[2] buf[3]
                  y := beWord buf[4] buf[5]
                  width := buf[6]
                  type := buf[7]
                  tick := now },
              buf[1] == HCICS_CAM_MODE_TRACK || buf[1] == HCICS_CAM_MODE_CLEAN) := by
        rw [CameraParser.feed, if_neg (by rw [hstate]; decide)]
        exact if_neg hidx
      have hempty : CameraParser.Holds ⟨0, 0, buf⟩ [] := ⟨rfl, rfl, Framing.Format.pending_nil, rfl⟩
      rw [hnext, hfeed]
      simp only [Option.toList_some, List.filterMap_cons, List.filterMap_nil, hdecode]
      by_cases htail : buf[8] = HCICS_CAM_TAIL
      · rw [if_neg (not_not.mpr htail)]
        refine ⟨hempty, ?_⟩
        by_cases hmode : buf[1] = HCICS_CAM_MODE_TRACK ∨ buf[1] = HCICS_CAM_MODE_CLEAN
        · rw [if_pos ⟨htail, hmode⟩]
          exact if_pos (by simpa using hmode)
        · rw [if_neg fun hc => hmode hc.2]
          exact if_neg (by simpa using hmode)
      · rw [if_pos htail, if_neg fun hc => htail hc.1]
        exact ⟨hempty, rfl⟩

theorem Holds.run {p : CameraParser} {pend : List (UInt8 × Tick)} (h : p.Holds pend)
    (s : List (UInt8 × Tick)) :
    (p.run s).1.Holds (cameraFormat.feed pend s).1 ∧
      (p.run s).2 = (cameraFormat.feed pend s).2.filterMap decodeFrame := by
  induction s generalizing p pend with
  | nil => exact ⟨h, rfl⟩
  | cons b s ih =>
    obtain ⟨hnext, haccept⟩ := h.feed b.1 b.2
    obtain ⟨hend, hrest⟩ := ih hnext
    refine ⟨hend, ?_⟩
    simp only [CameraParser.run, Framing.Format.feed, List.filterMap_append]
    rw [haccept, hrest]

/-! ## The parser against the batch framer -/

/-- The index stays in the buffer, and the parser is inside a frame where it keeps a header. -/
theorem Holds.bounds {p : CameraParser} {pend : List (UInt8 × Tick)} (h : p.Holds pend) :
    p.index ≤ 8 ∧ (p.state = 1 ↔ 1 ≤ p.index ∧ p.buf[0] = HCICS_CAM_HEAD) := by
  have hlen := h.length_lt
  have hindex := h.index
  refine ⟨UInt8.le_iff_toNat_le.mpr (by rw [hindex]; exact Nat.le_of_lt_succ hlen), ?_⟩
  cases pend with
  | nil =>
    have hzero : p.index = 0 := UInt8.toNat_inj.mp hindex
    have hstate : p.state = 0 := h.state
    rw [hstate, hzero]
    exact ⟨fun hc => absurd hc (by decide), fun hc => absurd hc.1 (by decide)⟩
  | cons b pend =>
    have hone : 1 ≤ p.index := UInt8.le_iff_toNat_le.mpr (by rw [hindex]; simp)
    have hhead : p.buf[0] = b.1 := by
      have hget : p.buf.toList[0]? = some p.buf[0] := by
        rw [List.getElem?_eq_getElem (by simp), Vector.getElem_toList]
      have hkept := congrArg (fun l => l[0]?) h.kept
      rw [List.length_cons, List.getElem?_take_of_lt (Nat.zero_lt_succ _), hget] at hkept
      exact Option.some.inj hkept
    have hb : b.1 = HCICS_CAM_HEAD := by
      have := h.framed.2 b rfl
      simpa [cameraFormat, Framing.Format.comap, cameraBytes] using this
    exact ⟨fun _ => ⟨hone, hhead.trans hb⟩, fun _ => h.state⟩

end CameraParser

/-! ## Frames and their bytes -/

namespace CameraFrame

theorem encode_whole (f : CameraFrame) : cameraBytes.Whole f.encode := by
  refine ⟨rfl, ?_⟩
  rintro _ ⟨⟩
  rfl

theorem nine_bytes {α : Type} {l : List α} (h : l.length = 9) :
    ∃ b0 b1 b2 b3 b4 b5 b6 b7 b8, l = [b0, b1, b2, b3, b4, b5, b6, b7, b8] := by
  match l, h with
  | [b0, b1, b2, b3, b4, b5, b6, b7, b8], _ => exact ⟨b0, b1, b2, b3, b4, b5, b6, b7, b8, rfl⟩

theorem decodeFrame_encode {f : CameraFrame} {bytes : List (UInt8 × Tick)}
    (h : bytes.map Prod.fst = f.encode) : ∃ now, decodeFrame bytes = some (f.target now) := by
  obtain ⟨b0, b1, b2, b3, b4, b5, b6, b7, b8, rfl⟩ := nine_bytes (by
    have := congrArg List.length h
    rwa [List.length_map] at this)
  simp only [encode, List.map_cons, List.map_nil, List.cons.injEq, and_true] at h
  obtain ⟨-, h1, h2, h3, h4, h5, h6, h7, h8⟩ := h
  refine ⟨b8.2, ?_⟩
  rw [decodeFrame, if_pos ⟨h8, by rw [h1]; exact f.mode_ok⟩, h1, h2, h3, h4, h5, h6, h7,
    beWord_split, beWord_split]
  rfl

theorem encode_of_decodeFrame {f : CameraFrame} {bytes : List (UInt8 × Tick)} {now : Tick}
    (hwhole : cameraFormat.Whole bytes) (h : decodeFrame bytes = some (f.target now)) :
    bytes.map Prod.fst = f.encode := by
  obtain ⟨b0, b1, b2, b3, b4, b5, b6, b7, b8, rfl⟩ := nine_bytes hwhole.1
  have hhead : b0.1 = HCICS_CAM_HEAD := by
    have := hwhole.2 b0 rfl
    simpa [cameraFormat, Framing.Format.comap, cameraBytes] using this
  by_cases hok : b8.1 = HCICS_CAM_TAIL ∧ (b1.1 = HCICS_CAM_MODE_TRACK ∨ b1.1 = HCICS_CAM_MODE_CLEAN)
  · rw [decodeFrame, if_pos hok] at h
    have ht := Option.some.inj h
    have hmode := congrArg CameraTarget.mode ht
    have hx := congrArg CameraTarget.x ht
    have hy := congrArg CameraTarget.y ht
    have hwidth := congrArg CameraTarget.width ht
    have htype := congrArg CameraTarget.type ht
    simp only [target] at hmode hx hy hwidth htype
    simp only [encode, List.map_cons, List.map_nil, ← hx, ← hy, beWord_high, beWord_low, hhead, hmode,
      hwidth, htype, hok.1]
  · rw [decodeFrame, if_neg hok] at h
    exact absurd h (by simp)

theorem filterMap_decodeFrame {frames : List (List (UInt8 × Tick))} {fs : List CameraFrame}
    (h : frames.map (List.map Prod.fst) = fs.map encode) :
    List.Forall₂ (fun (t : CameraTarget) (f : CameraFrame) => t = f.target t.tick)
      (frames.filterMap decodeFrame) fs := by
  induction fs generalizing frames with
  | nil =>
    rw [List.map_eq_nil_iff.mp h]
    exact .nil
  | cons f fs ih =>
    obtain ⟨bytes, rest, rfl, hbytes, hrest⟩ := List.map_eq_cons_iff.mp h
    obtain ⟨now, hdecode⟩ := decodeFrame_encode hbytes
    rw [List.filterMap_cons_some hdecode]
    exact .cons rfl (ih hrest)

end CameraFrame

theorem cameraFormat_feed (pend s : List (UInt8 × Tick)) :
    (cameraBytes.feed (pend.map Prod.fst) (s.map Prod.fst)).2 =
      (cameraFormat.feed pend s).2.map (List.map Prod.fst) := by
  rw [Framing.Format.feed_comap]
  rfl

/-- **The camera parser is the batch framer.** The targets of any stream are those of its frames of
nine bytes; the parser never stores past its buffer; and frames that follow bytes other than the
header are passed on in order, none lost or added. -/
theorem camera_parser_frames (s : List (UInt8 × Tick)) :
    (CameraParser.init.run s).2 = (cameraFormat.frames s).filterMap decodeFrame ∧
      (CameraParser.init.run s).1.index ≤ 8 ∧
      ((CameraParser.init.run s).1.state = 1 ↔
        1 ≤ (CameraParser.init.run s).1.index ∧
          (CameraParser.init.run s).1.buf[0] = HCICS_CAM_HEAD) ∧
      ∀ l : List (List UInt8 × CameraFrame), (∀ g ∈ l, HCICS_CAM_HEAD ∉ g.1) →
        s.map Prod.fst = l.flatMap (fun g => g.1 ++ g.2.encode) →
        List.Forall₂ (fun (t : CameraTarget) (f : CameraFrame) => t = f.target t.tick)
          (CameraParser.init.run s).2 (l.map Prod.snd) := by
  obtain ⟨hholds, htargets⟩ := CameraParser.init_holds.run s
  refine ⟨by rw [htargets, Framing.Format.feed_eq_frames], hholds.bounds.1, hholds.bounds.2, ?_⟩
  intro l hgap hs
  rw [htargets]
  apply CameraFrame.filterMap_decodeFrame
  have hframes := cameraFormat_feed [] s
  rw [List.map_nil, Framing.Format.feed_eq_frames, hs] at hframes
  have hcut := Framing.Format.frames_gaps (F := cameraBytes)
    (l := l.map fun g => (g.1, g.2.encode)) ?_ ?_
  · rw [List.flatMap_map] at hcut
    rw [← hframes, hcut, List.map_map, List.map_map]
    rfl
  · intro gf hgf b hb
    obtain ⟨g, hg, rfl⟩ := List.mem_map.mp hgf
    have hne : b ≠ HCICS_CAM_HEAD := by
      rintro rfl
      exact hgap g hg hb
    simpa [cameraBytes] using hne
  · intro gf hgf
    obtain ⟨g, -, rfl⟩ := List.mem_map.mp hgf
    exact g.2.encode_whole

/-! ## Resynchronisation -/

/-- What is pending, completed by the first bytes of `f`, is `f`; or the bytes of `f` from the first
header on that is left of it then, followed by those before them, are `f`. -/
def CameraParser.Recovers (p : CameraParser) (f : CameraFrame) : Prop :=
  p.pending ++ f.encode.take (HCICS_CAM_FRAME_LEN - p.pending.length) = f.encode ∨
    f.encode.rotate (cameraBytes.catchUp p.pending f.encode) = f.encode
  deriving Decidable

theorem CameraParser.Holds.shows_repeat {p : CameraParser} {pend : List (UInt8 × Tick)}
    (h : p.Holds pend) (f : CameraFrame) (k : Nat) {r : List (UInt8 × Tick)}
    (hr : r.map Prod.fst = (List.replicate (k + 2) f.encode).flatten) :
    (∃ t ∈ (p.run r).2, t = f.target t.tick) ↔ p.Recovers f := by
  obtain ⟨-, htargets⟩ := h.run r
  have hshown : (∃ t ∈ (p.run r).2, t = f.target t.tick) ↔
      f.encode ∈ (cameraFormat.feed pend r).2.map (List.map Prod.fst) := by
    rw [htargets]
    constructor
    · rintro ⟨t, ht, heq⟩
      obtain ⟨bytes, hbytes, hdecode⟩ := List.mem_filterMap.mp ht
      have hwhole := Framing.Format.feed_whole h.framed hbytes
      rw [heq] at hdecode
      exact List.mem_map.mpr ⟨bytes, hbytes, CameraFrame.encode_of_decodeFrame hwhole hdecode⟩
    · intro hmem
      obtain ⟨bytes, hbytes, hencode⟩ := List.mem_map.mp hmem
      obtain ⟨now, hdecode⟩ := CameraFrame.decodeFrame_encode hencode
      exact ⟨f.target now, List.mem_filterMap.mpr ⟨bytes, hbytes, hdecode⟩, rfl⟩
  have hpend : cameraBytes.Pending p.pending := by
    rw [h.pending]
    refine ⟨by rw [List.length_map]; exact h.framed.1, ?_⟩
    intro b hb
    rw [List.head?_map] at hb
    obtain ⟨c, hc, rfl⟩ := Option.map_eq_some_iff.mp hb
    exact h.framed.2 c hc
  rw [hshown, ← cameraFormat_feed, ← h.pending, hr,
    Framing.Format.feed_repeat hpend f.encode_whole (k + 1), List.mem_cons, List.mem_replicate,
    CameraParser.Recovers]
  exact or_congr eq_comm ⟨fun hm => hm.2.symm, fun hm => ⟨Nat.succ_ne_zero k, hm.symm⟩⟩

theorem CameraParser.Holds.recovers {p : CameraParser} {pend : List (UInt8 × Tick)}
    (h : p.Holds pend) {f : CameraFrame} (hclean : HCICS_CAM_HEAD ∉ f.encode.tail) :
    p.Recovers f := by
  refine .inr (Framing.Format.rotate_catchUp f.encode_whole ?_)
  intro b hb
  have hlen := h.length_lt
  have hstart : cameraBytes.len - p.pending.length = (8 - pend.length) + 1 := by
    rw [h.pending, List.length_map]
    show 9 - pend.length = 8 - pend.length + 1
    omega
  rw [hstart, Nat.add_comm, ← List.drop_drop, List.drop_one] at hb
  have hne : b ≠ HCICS_CAM_HEAD := by
    rintro rfl
    exact hclean (List.mem_of_mem_drop hb)
  simpa [cameraBytes] using hne

/-- **When the camera parser resynchronises.** Ten copies of a frame show it exactly where the parser
recovers it, and in particular where no byte of it but the first is a header. -/
theorem camera_resync (s r : List (UInt8 × Tick)) (f : CameraFrame)
    (hr : r.map Prod.fst = (List.replicate 10 f.encode).flatten) :
    ((∃ t ∈ ((CameraParser.init.run s).1.run r).2, t = f.target t.tick) ↔
        (CameraParser.init.run s).1.Recovers f) ∧
      (HCICS_CAM_HEAD ∉ f.encode.tail →
        ∃ t ∈ ((CameraParser.init.run s).1.run r).2, t = f.target t.tick) := by
  obtain ⟨hholds, -⟩ := CameraParser.init_holds.run s
  have hshows := hholds.shows_repeat f 8 hr
  exact ⟨hshows, fun hclean => hshows.mpr (hholds.recovers hclean)⟩

def lostTail : List (UInt8 × Tick) :=
  [(0xAA, 1), (1, 1), (0, 1), (50, 1), (0, 1), (60, 1), (20, 1), (0, 1)]

/-- A frame with a header in its x. -/
def headerInside : CameraFrame :=
  { mode := HCICS_CAM_MODE_TRACK, x := 170, y := 60, width := 20, type := 0, mode_ok := .inl rfl }

/-- The frame whose tail was lost. -/
def headerFree : CameraFrame :=
  { mode := HCICS_CAM_MODE_TRACK, x := 50, y := 60, width := 20, type := 0, mode_ok := .inl rfl }

def tenCopies (f : CameraFrame) : List (UInt8 × Tick) :=
  (List.replicate 10 f.encode).flatten.map fun b => (b, 2)

/-- After the lost byte the frame is found again, and whether one with a header inside is depends on the
frame. -/
theorem camera_resync_lost :
    (∃ t ∈ ((CameraParser.init.run lostTail).1.run (tenCopies headerFree)).2, t = headerFree.target t.tick) ∧
      ((∃ t ∈ ((CameraParser.init.run lostTail).1.run (tenCopies headerInside)).2,
          t = headerInside.target t.tick) ↔
        (CameraParser.init.run lostTail).1.Recovers headerInside) :=
  ⟨(camera_resync lostTail (tenCopies headerFree) headerFree (by decide +kernel)).2 (by decide),
    (camera_resync lostTail (tenCopies headerInside) headerInside (by decide +kernel)).1⟩

/-- After one lost byte, ten copies of a frame need not show it. -/
theorem camera_stuck :
    ¬ ∀ (s r : List (UInt8 × Tick)) (f : CameraFrame),
      r.map Prod.fst = (List.replicate 10 f.encode).flatten →
        ∃ t ∈ ((CameraParser.init.run s).1.run r).2, t = f.target t.tick := by
  intro h
  have hshown := h lostTail (tenCopies headerInside) headerInside (by decide +kernel)
  exact absurd hshown (by decide +kernel)

end Hcics
