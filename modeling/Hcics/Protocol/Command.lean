import Hcics.App.Link
import Mathlib.Data.List.TakeWhile
import Mathlib.Tactic.IntervalCases

/-!
# The command parsers

The texts a UDP peer sends: `FAULT,<token>,<id>,<row>,<col>,<severity>` and `STOP,<token>`. A text is
the bytes before its NUL, and a cursor is the bytes from it on, so that reading past the last byte is
reading the NUL. Cursors, the text and the fault are never NULL where the functions are called; the
token may be.

`FaultCommand` and `StopCommand` are the grammars; `command_parsers` says that they are accepted
exactly.
-/

namespace Hcics

/-- A NUL-terminated text, without its NUL. -/
structure CString where
  bytes : List UInt8
  nul_free : 0 ∉ bytes
  deriving DecidableEq, Repr

def ascii (text : String) : List UInt8 := text.toList.map fun c => UInt8.ofNat c.toNat

/-- `','`. -/
abbrev comma : UInt8 := 44

/-- CR, LF, space or tab. -/
def isBlank (c : UInt8) : Bool := c == 13 || c == 10 || c == 32 || c == 9

def isDigit (c : UInt8) : Bool := 48 ≤ c && c ≤ 57

/-- `rt_strncmp`: the difference of the first bytes that differ, as a signed char. -/
def rtStrncmp (cs ct : List UInt8) : Nat → Int
  | 0 => 0
  | count + 1 =>
    let res := cs.headD 0 - ct.headD 0
    if res ≠ 0 ∨ cs.headD 0 = 0 then res.toInt8.toInt else rtStrncmp cs.tail ct.tail count

/-- `rt_strncpy` into a buffer of `size` bytes. -/
def rtStrncpy {size : Nat} (dst : Vector UInt8 size) (src : List UInt8) (n : Nat) :
    Vector UInt8 size :=
  Vector.ofFn fun i => if i.val < n then src.getD i 0 else dst[i]

/-- `hcics_fault_t`. -/
structure FaultRecord extends Fault where
  source : Vector UInt8 12
  deriving DecidableEq, Repr

def faultGridToId (row col : Nat) : Option Nat :=
  if row < 1 ∨ row > 3 ∨ col < 1 ∨ col > 3 then none else some ((row - 1) * 3 + col)

/-- What `source` is set to. -/
def udpSource (source : Vector UInt8 12) : Vector UInt8 12 :=
  (rtStrncpy source (ascii "udp") 11).set 11 0

def faultDefaults (fault : FaultRecord) : FaultRecord :=
  { id := 1, row := 1, col := 1, severity := 1, source := udpSource fault.source }

/-! ## Fields -/

/-- The end of a field: the delimiter, or blanks up to the end of the text where it is NUL. -/
def fieldEnd (p : List UInt8) (delimiter : UInt8) : Option (List UInt8) :=
  if delimiter ≠ 0 then
    match p with
    | [] => none
    | c :: p => if c ≠ delimiter then none else some p
  else
    let p := p.dropWhile isBlank
    if p ≠ [] then none else some p

/-- The loop of `hcics_parse_uint_field`: `parsed` and the cursor behind the digits. -/
def uintLoop (parsed : Nat) : List UInt8 → Option (Nat × List UInt8)
  | [] => some (parsed, [])
  | c :: p =>
    if isDigit c then
      let parsed := parsed * 10 + (c.toNat - 48)
      if parsed > 255 then none else uintLoop parsed p
    else some (parsed, c :: p)

def accumulated (parsed : Nat) : List UInt8 → List Nat
  | [] => []
  | c :: p =>
    if isDigit c then
      let parsed := parsed * 10 + (c.toNat - 48)
      parsed :: if parsed > 255 then [] else accumulated parsed p
    else []

/-- `hcics_parse_uint_field`: the value and the cursor behind the field. -/
def parseUintField (p : List UInt8) (delimiter : UInt8) : Option (Nat × List UInt8) :=
  if !isDigit (p.headD 0) then none
  else do
    let (parsed, p) ← uintLoop 0 p
    let p ← fieldEnd p delimiter
    return (parsed, p)

def tokenIsUsable : Option CString → Bool
  | none => false
  | some token => token.bytes ≠ [] && token.bytes.all fun c => !(c == comma || isBlank c)

/-- The loop of `hcics_parse_token_field`: the cursor behind the token. -/
def tokenLoop : List UInt8 → List UInt8 → Option (List UInt8)
  | p, [] => some p
  | [], _ :: _ => none
  | c :: p, t :: ts => if c = t then tokenLoop p ts else none

/-- `hcics_parse_token_field`: the cursor behind the field. -/
def parseTokenField (p : List UInt8) (delimiter : UInt8) (token : Option CString) :
    Option (List UInt8) :=
  match token with
  | none => none
  | some t =>
    if !tokenIsUsable token then none
    else do
      let p ← tokenLoop p t.bytes
      fieldEnd p delimiter

/-! ## Texts -/

/-- The fields of `hcics_protocol_parse_fault_text` behind its prefix. -/
def parseFaultFields (p : List UInt8) (token : Option CString) : Option (Nat × Nat × Nat × Nat) := do
  let p ← parseTokenField p comma token
  let (id, p) ← parseUintField p comma
  let (row, p) ← parseUintField p comma
  let (col, p) ← parseUintField p comma
  let (severity, _) ← parseUintField p 0
  return (id, row, col, severity)

/-- `hcics_protocol_parse_fault_text`: the result and the fault. -/
def parseFaultText (text : CString) (token : Option CString) (fault : FaultRecord) :
    Bool × FaultRecord :=
  if !tokenIsUsable token then (false, fault)
  else
    let fault := faultDefaults fault
    if rtStrncmp text.bytes (ascii "FAULT,") 6 ≠ 0 then (false, fault)
    else
      match parseFaultFields (text.bytes.drop 6) token with
      | none => (false, fault)
      | some (id, row, col, severity) =>
        if faultGridToId row col = none then (false, fault)
        else
          let fault : FaultRecord :=
            { id := .ofNat id
              row := .ofNat row
              col := .ofNat col
              severity := .ofNat severity
              source := udpSource fault.source }
          (faultIsValid fault.toFault, fault)

def parseStopText (text : CString) (token : Option CString) : Bool :=
  if !tokenIsUsable token then false
  else if rtStrncmp text.bytes (ascii "STOP,") 5 ≠ 0 then false
  else (parseTokenField (text.bytes.drop 5) 0 token).isSome

/-! ## The grammars -/

def digitsValue (parsed : Nat) (digits : List UInt8) : Nat :=
  digits.foldl (fun v c => v * 10 + (c.toNat - 48)) parsed

/-- `digits` is a nonempty string of decimal digits whose value is `v`, at most 255. -/
structure Numeral (digits : List UInt8) (v : Nat) : Prop where
  ne_nil : digits ≠ []
  digit : ∀ c ∈ digits, isDigit c = true
  value : digitsValue 0 digits = v
  le : v ≤ 255

/-- A token without separators. -/
structure UsableToken (token : CString) : Prop where
  ne_nil : token.bytes ≠ []
  separated : ∀ c ∈ token.bytes, c ≠ comma ∧ isBlank c = false

/-- `FAULT,<token>,<id>,<row>,<col>,<severity>` and blanks, with the fields of a cell of the grid. -/
def FaultCommand (token text : List UInt8) (id row col severity : Nat) : Prop :=
  (∃ ids rows cols severities blanks,
    Numeral ids id ∧ Numeral rows row ∧ Numeral cols col ∧ Numeral severities severity ∧
    (∀ c ∈ blanks, isBlank c = true) ∧
    text = ascii "FAULT," ++ token ++ [comma] ++ ids ++ [comma] ++ rows ++ [comma] ++ cols ++
      [comma] ++ severities ++ blanks) ∧
  1 ≤ row ∧ row ≤ 3 ∧ 1 ≤ col ∧ col ≤ 3 ∧ id = 3 * (row - 1) + col ∧ 1 ≤ severity

def StopCommand (token text : List UInt8) : Prop :=
  ∃ blanks, (∀ c ∈ blanks, isBlank c = true) ∧ text = ascii "STOP," ++ token ++ blanks

/-! ## Fields and their grammars -/

theorem signedDifference_eq_zero (c t : UInt8) : (c - t).toInt8.toInt = 0 ↔ c = t := by
  constructor
  · intro h
    have h8 : (c - t).toInt8 = 0 := Int8.toInt_inj.mp h
    have h0 : c - t = 0 := congrArg Int8.toUInt8 h8
    simpa using UInt8.sub_eq_iff_eq_add.mp h0
  · rintro rfl
    rw [UInt8.sub_self]
    rfl

theorem rtStrncmp_step (cs : List UInt8) (t : UInt8) (ct : List UInt8) (n : Nat) (ht : t ≠ 0) :
    rtStrncmp cs (t :: ct) (n + 1) = 0 ↔ cs.head? = some t ∧ rtStrncmp cs.tail ct n = 0 := by
  have hstep : rtStrncmp cs (t :: ct) (n + 1) =
      if cs.headD 0 - t ≠ 0 ∨ cs.headD 0 = 0 then (cs.headD 0 - t).toInt8.toInt
      else rtStrncmp cs.tail ct n := rfl
  rw [hstep]
  by_cases hc : cs.headD 0 = t
  · have hhead : cs.head? = some t := by
      cases cs with
      | nil => exact absurd hc.symm ht
      | cons c cs => exact congrArg some hc
    rw [hc, if_neg (by simp [ht]), hhead]
    simp
  · have hne : cs.headD 0 - t ≠ 0 := by
      intro h0
      exact hc (by simpa using UInt8.sub_eq_iff_eq_add.mp h0)
    rw [if_pos (.inl hne), signedDifference_eq_zero]
    refine ⟨fun h => absurd h hc, fun h => absurd ?_ hc⟩
    rw [List.headD_eq_head?_getD, h.1]
    rfl

theorem rtStrncmp_eq_zero {ct : List UInt8} (h : 0 ∉ ct) (cs : List UInt8) :
    rtStrncmp cs ct ct.length = 0 ↔ ct <+: cs := by
  induction ct generalizing cs with
  | nil => simp [rtStrncmp]
  | cons t ct ih =>
    have ht : t ≠ 0 := fun hc => h (by simp [hc])
    have hct : 0 ∉ ct := fun hc => h (List.mem_cons_of_mem _ hc)
    rw [List.length_cons, rtStrncmp_step cs t ct ct.length ht, ih hct]
    cases cs with
    | nil => simp
    | cons c cs =>
      rw [List.cons_prefix_cons, List.head?_cons, List.tail_cons, Option.some.injEq, eq_comm]

theorem rtStrncmp_fault (cs : List UInt8) :
    rtStrncmp cs (ascii "FAULT,") 6 = 0 ↔ ascii "FAULT," <+: cs :=
  rtStrncmp_eq_zero (by decide) cs

theorem rtStrncmp_stop (cs : List UInt8) :
    rtStrncmp cs (ascii "STOP,") 5 = 0 ↔ ascii "STOP," <+: cs :=
  rtStrncmp_eq_zero (by decide) cs

theorem digitsValue_le (parsed : Nat) (digits : List UInt8) :
    parsed ≤ digitsValue parsed digits := by
  induction digits generalizing parsed with
  | nil => exact Nat.le_refl _
  | cons c digits ih =>
    have h := ih (parsed * 10 + (c.toNat - 48))
    simp only [digitsValue, List.foldl_cons] at h ⊢
    omega

theorem uintLoop_eq_some {parsed v : Nat} {p r : List UInt8} (hparsed : parsed ≤ 255) :
    uintLoop parsed p = some (v, r) ↔
      ∃ digits, (∀ c ∈ digits, isDigit c = true) ∧ p = digits ++ r ∧
        (∀ c ∈ r.head?, isDigit c = false) ∧ digitsValue parsed digits = v ∧ v ≤ 255 := by
  induction p generalizing parsed with
  | nil =>
    constructor
    · intro h
      obtain ⟨rfl, rfl⟩ := Prod.mk.inj (Option.some.inj h)
      exact ⟨[], nofun, rfl, nofun, rfl, hparsed⟩
    · rintro ⟨digits, -, hp, -, hv, -⟩
      obtain ⟨rfl, rfl⟩ := List.append_eq_nil_iff.mp hp.symm
      exact congrArg (fun v => some (v, [])) hv
  | cons c p ih =>
    by_cases hc : isDigit c = true
    · rw [uintLoop, if_pos hc]
      by_cases hbig : parsed * 10 + (c.toNat - 48) > 255
      · simp only [if_pos hbig]
        refine ⟨fun h => absurd h (by simp), ?_⟩
        rintro ⟨digits, -, hp, hstop, hv, hle⟩
        cases digits with
        | nil =>
          rw [List.nil_append] at hp
          subst hp
          exact Bool.noConfusion (hc.symm.trans (hstop c rfl))
        | cons d digits =>
          obtain ⟨rfl, -⟩ := List.cons.inj hp
          have hmono := digitsValue_le (parsed * 10 + (c.toNat - 48)) digits
          simp only [digitsValue, List.foldl_cons] at hv hmono
          omega
      · simp only [if_neg hbig]
        rw [ih (by omega)]
        constructor
        · rintro ⟨digits, hdigits, rfl, hstop, hv, hle⟩
          exact ⟨c :: digits, List.forall_mem_cons.mpr ⟨hc, hdigits⟩, rfl, hstop, hv, hle⟩
        · rintro ⟨digits, hdigits, hp, hstop, hv, hle⟩
          cases digits with
          | nil =>
            rw [List.nil_append] at hp
            subst hp
            exact Bool.noConfusion (hc.symm.trans (hstop c rfl))
          | cons d digits =>
            obtain ⟨rfl, rfl⟩ := List.cons.inj hp
            exact ⟨digits, (List.forall_mem_cons.mp hdigits).2, rfl, hstop, hv, hle⟩
    · rw [uintLoop, if_neg hc]
      constructor
      · intro h
        obtain ⟨rfl, rfl⟩ := Prod.mk.inj (Option.some.inj h)
        refine ⟨[], nofun, rfl, ?_, rfl, hparsed⟩
        rintro _ ⟨⟩
        simpa using hc
      · rintro ⟨digits, hdigits, hp, hstop, hv, hle⟩
        cases digits with
        | nil =>
          rw [List.nil_append] at hp
          subst hp
          exact congrArg (fun v => some (v, c :: p)) hv
        | cons d digits =>
          obtain ⟨rfl, -⟩ := List.cons.inj hp
          exact absurd (hdigits c List.mem_cons_self) hc

/-- **The accumulator never overflows**: no step of the loop leaves 32 bits. -/
theorem accumulated_lt {parsed : Nat} (hparsed : parsed ≤ 255) (p : List UInt8) :
    ∀ v ∈ accumulated parsed p, v < 2 ^ 31 := by
  induction p generalizing parsed with
  | nil => nofun
  | cons c p ih =>
    intro v hv
    have hc := c.toNat_lt
    by_cases hdigit : isDigit c = true
    · rw [accumulated, if_pos hdigit] at hv
      rcases List.mem_cons.mp hv with rfl | hrest
      · omega
      · by_cases hbig : parsed * 10 + (c.toNat - 48) > 255
        · rw [if_pos hbig] at hrest
          exact absurd hrest List.not_mem_nil
        · rw [if_neg hbig] at hrest
          exact ih (by omega) v hrest
    · rw [accumulated, if_neg hdigit] at hv
      exact absurd hv List.not_mem_nil

theorem uintLoop_value {parsed v : Nat} {p r : List UInt8} (h : uintLoop parsed p = some (v, r)) :
    (accumulated parsed p).getLastD parsed = v := by
  induction p generalizing parsed with
  | nil => exact (Prod.mk.inj (Option.some.inj h)).1
  | cons c p ih =>
    by_cases hdigit : isDigit c = true
    · rw [uintLoop, if_pos hdigit] at h
      rw [accumulated, if_pos hdigit, List.getLastD_cons]
      by_cases hbig : parsed * 10 + (c.toNat - 48) > 255
      · simp only [if_pos hbig] at h
        cases h
      · simp only [if_neg hbig] at h ⊢
        exact ih h
    · rw [uintLoop, if_neg hdigit] at h
      rw [accumulated, if_neg hdigit]
      exact (Prod.mk.inj (Option.some.inj h)).1

theorem fieldEnd_comma {p r : List UInt8} : fieldEnd p comma = some r ↔ p = comma :: r := by
  have hcomma : comma ≠ 0 := by decide
  cases p with
  | nil => simp [fieldEnd, hcomma]
  | cons c p =>
    by_cases hc : c = comma <;> simp [fieldEnd, hcomma, hc]

theorem fieldEnd_nul {p r : List UInt8} :
    fieldEnd p 0 = some r ↔ r = [] ∧ ∀ c ∈ p, isBlank c = true := by
  by_cases hp : p.dropWhile isBlank = []
  · have hend : fieldEnd p 0 = some [] := by simp [fieldEnd, hp]
    rw [hend, Option.some.injEq, eq_comm, and_iff_left (List.dropWhile_eq_nil_iff.mp hp)]
  · have hend : fieldEnd p 0 = none := by simp [fieldEnd, hp]
    rw [hend]
    exact ⟨nofun, fun h => absurd (List.dropWhile_eq_nil_iff.mpr h.2) hp⟩

theorem parseUintField_eq_some {p r : List UInt8} {delimiter : UInt8} {v : Nat} :
    parseUintField p delimiter = some (v, r) ↔
      ∃ digits q, Numeral digits v ∧ (∀ c ∈ q.head?, isDigit c = false) ∧
        fieldEnd q delimiter = some r ∧ p = digits ++ q := by
  have hdigit : ∀ {digits q : List UInt8} {u : Nat}, Numeral digits u →
      isDigit ((digits ++ q).headD 0) = true := by
    intro digits q u h
    obtain ⟨c, cs, rfl⟩ := List.exists_cons_of_ne_nil h.ne_nil
    exact h.digit c List.mem_cons_self
  by_cases hp : isDigit (p.headD 0) = true
  · have hfield : parseUintField p delimiter =
        (uintLoop 0 p).bind fun x => (fieldEnd x.2 delimiter).bind fun q => some (x.1, q) := by
      rw [parseUintField, hp]
      rfl
    rw [hfield, Option.bind_eq_some_iff]
    constructor
    · rintro ⟨⟨u, q⟩, hloop, hrest⟩
      obtain ⟨digits, hdigits, rfl, hstop, hvalue, hle⟩ := (uintLoop_eq_some (by omega)).mp hloop
      obtain ⟨r', hend, heq⟩ := Option.bind_eq_some_iff.mp hrest
      obtain ⟨rfl, rfl⟩ := Prod.mk.inj (Option.some.inj heq)
      refine ⟨digits, q, ⟨?_, hdigits, hvalue, hle⟩, hstop, hend, rfl⟩
      rintro rfl
      cases q with
      | nil => exact absurd hp (by decide)
      | cons c q => exact Bool.noConfusion (hp.symm.trans (hstop c rfl))
    · rintro ⟨digits, q, hnum, hstop, hend, rfl⟩
      refine ⟨(v, q), (uintLoop_eq_some (by omega)).mpr ?_, ?_⟩
      · exact ⟨digits, hnum.digit, rfl, hstop, hnum.value, hnum.le⟩
      · exact Option.bind_eq_some_iff.mpr ⟨r, hend, rfl⟩
  · have hfield : parseUintField p delimiter = none := by
      rw [parseUintField, if_pos (by simpa using hp)]
    rw [hfield]
    refine ⟨nofun, ?_⟩
    rintro ⟨digits, q, hnum, -, -, rfl⟩
    exact absurd (hdigit hnum) hp

theorem parseUintField_comma {p r : List UInt8} {v : Nat} :
    parseUintField p comma = some (v, r) ↔ ∃ digits, Numeral digits v ∧ p = digits ++ comma :: r := by
  rw [parseUintField_eq_some]
  constructor
  · rintro ⟨digits, q, hnum, -, hend, rfl⟩
    exact ⟨digits, hnum, by rw [fieldEnd_comma.mp hend]⟩
  · rintro ⟨digits, hnum, rfl⟩
    refine ⟨digits, comma :: r, hnum, ?_, fieldEnd_comma.mpr rfl, rfl⟩
    rintro _ ⟨⟩
    decide

theorem not_digit_of_blank {c : UInt8} (h : isBlank c = true) : isDigit c = false := by
  simp only [isBlank, Bool.or_eq_true, beq_iff_eq] at h
  rcases h with ((rfl | rfl) | rfl) | rfl <;> decide

theorem parseUintField_nul {p r : List UInt8} {v : Nat} :
    parseUintField p 0 = some (v, r) ↔ r = [] ∧
      ∃ digits blanks, Numeral digits v ∧ (∀ c ∈ blanks, isBlank c = true) ∧
        p = digits ++ blanks := by
  rw [parseUintField_eq_some]
  constructor
  · rintro ⟨digits, q, hnum, -, hend, rfl⟩
    obtain ⟨rfl, hblank⟩ := fieldEnd_nul.mp hend
    exact ⟨rfl, digits, q, hnum, hblank, rfl⟩
  · rintro ⟨rfl, digits, blanks, hnum, hblank, rfl⟩
    refine ⟨digits, blanks, hnum, ?_, fieldEnd_nul.mpr ⟨rfl, hblank⟩, rfl⟩
    intro c hc
    exact not_digit_of_blank (hblank c (List.mem_of_mem_head? hc))

theorem tokenIsUsable_some {token : CString} :
    tokenIsUsable (some token) = true ↔ UsableToken token := by
  rw [tokenIsUsable, Bool.and_eq_true, decide_eq_true_iff, List.all_eq_true]
  constructor
  · rintro ⟨hne, hall⟩
    refine ⟨hne, fun c hc => ?_⟩
    simpa using hall c hc
  · rintro ⟨hne, hsep⟩
    refine ⟨hne, fun c hc => ?_⟩
    simpa using hsep c hc

theorem tokenLoop_eq_some {p t r : List UInt8} : tokenLoop p t = some r ↔ p = t ++ r := by
  induction t generalizing p with
  | nil => simp [tokenLoop]
  | cons t ts ih =>
    cases p with
    | nil => simp [tokenLoop]
    | cons c p =>
      by_cases hc : c = t
      · rw [tokenLoop, if_pos hc, ih, hc, List.cons_append, List.cons.injEq, and_iff_right rfl]
      · rw [tokenLoop, if_neg hc, List.cons_append, List.cons.injEq]
        exact ⟨nofun, fun h => absurd h.1 hc⟩

theorem parseTokenField_eq_some {p r : List UInt8} {delimiter : UInt8} {token : CString}
    (h : UsableToken token) :
    parseTokenField p delimiter (some token) = some r ↔
      ∃ q, fieldEnd q delimiter = some r ∧ p = token.bytes ++ q := by
  have hfield : parseTokenField p delimiter (some token) =
      (tokenLoop p token.bytes).bind fun q => fieldEnd q delimiter := by
    rw [parseTokenField, if_neg (by simp [tokenIsUsable_some.mpr h])]
    rfl
  rw [hfield, Option.bind_eq_some_iff]
  constructor
  · rintro ⟨q, hloop, hend⟩
    exact ⟨q, hend, tokenLoop_eq_some.mp hloop⟩
  · rintro ⟨q, hend, hp⟩
    exact ⟨q, tokenLoop_eq_some.mpr hp, hend⟩

/-! ## Texts and their grammars -/

theorem faultGridToId_isSome {row col : Nat} :
    faultGridToId row col ≠ none ↔ 1 ≤ row ∧ row ≤ 3 ∧ 1 ≤ col ∧ col ≤ 3 := by
  by_cases hout : row < 1 ∨ row > 3 ∨ col < 1 ∨ col > 3
  · rw [faultGridToId, if_pos hout]
    exact ⟨fun h => absurd rfl h, fun h => by omega⟩
  · rw [faultGridToId, if_neg hout]
    exact ⟨fun _ => by omega, fun _ => nofun⟩

theorem faultIdToGrid_ofNat {id : Nat} (h1 : 1 ≤ id) (h9 : id ≤ 9) :
    faultIdToGrid (.ofNat id) = some (.ofNat ((id - 1) / 3 + 1), .ofNat ((id - 1) % 3 + 1)) := by
  interval_cases id <;> rfl

theorem ofNat_beq {m n : Nat} (hm : m ≤ 255) (hn : n ≤ 255) :
    (UInt8.ofNat m == UInt8.ofNat n) = decide (m = n) := by
  rw [Bool.eq_iff_iff, beq_iff_eq, decide_eq_true_iff, ← UInt8.toNat_inj, UInt8.toNat_ofNat',
    UInt8.toNat_ofNat', Nat.mod_eq_of_lt (by omega), Nat.mod_eq_of_lt (by omega)]

/-- The fields of a cell of the grid are a valid fault where they name the same cell. -/
theorem faultIsValid_ofNat {id row col severity : Nat} (hid : id ≤ 255) (hrow : row ≤ 255)
    (hcol : col ≤ 255) (hsev : severity ≤ 255) (hr1 : 1 ≤ row) (hr3 : row ≤ 3) (hc1 : 1 ≤ col)
    (hc3 : col ≤ 3) :
    faultIsValid ⟨.ofNat id, .ofNat row, .ofNat col, .ofNat severity⟩ = true ↔
      id = 3 * (row - 1) + col ∧ 1 ≤ severity := by
  by_cases hgrid : 1 ≤ id ∧ id ≤ 9
  · have hsev0 : (UInt8.ofNat severity != 0) = !decide (severity = 0) := by
      rw [bne, show (0 : UInt8) = UInt8.ofNat 0 from rfl, ofNat_beq hsev (by omega)]
    simp only [faultIsValid, faultIdToGrid_ofNat hgrid.1 hgrid.2]
    rw [ofNat_beq hrow (by omega), ofNat_beq hcol (by omega), hsev0]
    simp only [Bool.and_eq_true, decide_eq_true_eq, Bool.not_eq_true', decide_eq_false_iff_not]
    omega
  · have hnone : faultIdToGrid (.ofNat id) = none := by
      have hlt : UInt8.ofNat id < 1 ∨ UInt8.ofNat id > 9 := by
        rw [gt_iff_lt, UInt8.lt_iff_toNat_lt, UInt8.lt_iff_toNat_lt, UInt8.toNat_ofNat',
          Nat.mod_eq_of_lt (by omega)]
        show id < 1 ∨ 9 < id
        omega
      rw [faultIdToGrid, if_pos hlt]
    simp only [faultIsValid, hnone]
    exact ⟨nofun, fun h => absurd ⟨by omega, by omega⟩ hgrid⟩

theorem udpSource_toList (source : Vector UInt8 12) :
    (udpSource source).toList = ascii "udp" ++ List.replicate 9 0 := by
  rfl

theorem parseFaultFields_eq_some {p : List UInt8} {token : CString} (h : UsableToken token)
    {id row col severity : Nat} :
    parseFaultFields p (some token) = some (id, row, col, severity) ↔
      ∃ ids rows cols severities blanks,
        Numeral ids id ∧ Numeral rows row ∧ Numeral cols col ∧ Numeral severities severity ∧
        (∀ c ∈ blanks, isBlank c = true) ∧
        p = token.bytes ++ [comma] ++ ids ++ [comma] ++ rows ++ [comma] ++ cols ++ [comma] ++
          severities ++ blanks := by
  simp only [parseFaultFields, Option.bind_eq_bind, Option.bind_eq_some_iff, Prod.exists,
    parseTokenField_eq_some h, parseUintField_comma, parseUintField_nul]
  constructor
  · rintro ⟨p1, ⟨q, hend, rfl⟩, id', p2, ⟨ids, hids, rfl⟩, row', p3, ⟨rows, hrows, rfl⟩, col', p4,
      ⟨cols, hcols, rfl⟩, severity', p5, ⟨rfl, severities, blanks, hseverities, hblanks, rfl⟩, heq⟩
    simp only [Option.pure_def, Option.some.injEq, Prod.mk.injEq] at heq
    obtain ⟨rfl, rfl, rfl, rfl⟩ := heq
    rw [fieldEnd_comma.mp hend]
    exact ⟨ids, rows, cols, severities, blanks, hids, hrows, hcols, hseverities, hblanks, by simp⟩
  · rintro ⟨ids, rows, cols, severities, blanks, hids, hrows, hcols, hseverities, hblanks, rfl⟩
    exact ⟨_, ⟨_, fieldEnd_comma.mpr rfl, by simp⟩, id, _, ⟨ids, hids, rfl⟩, row, _,
      ⟨rows, hrows, rfl⟩, col, _, ⟨cols, hcols, rfl⟩, severity, [],
      ⟨rfl, severities, blanks, hseverities, hblanks, rfl⟩, rfl⟩

/-- What `hcics_protocol_parse_fault_text` writes for a text of the grammar. -/
def faultOf (id row col severity : Nat) (fault : FaultRecord) : FaultRecord :=
  { id := .ofNat id
    row := .ofNat row
    col := .ofNat col
    severity := .ofNat severity
    source := udpSource (udpSource fault.source) }

theorem parseFaultText_of_command {text token : CString} (h : UsableToken token)
    {id row col severity : Nat} (hcommand : FaultCommand token.bytes text.bytes id row col severity)
    (fault : FaultRecord) :
    parseFaultText text (some token) fault = (true, faultOf id row col severity fault) := by
  obtain ⟨⟨ids, rows, cols, severities, blanks, hids, hrows, hcols, hseverities, hblanks, htext⟩,
    hr1, hr3, hc1, hc3, hid, hsev⟩ := hcommand
  have hstarts : ascii "FAULT," <+: text.bytes := ⟨_, by rw [htext]; simp only [List.append_assoc]; rfl⟩
  have hdrop : text.bytes.drop 6 = token.bytes ++ [comma] ++ ids ++ [comma] ++ rows ++ [comma] ++
      cols ++ [comma] ++ severities ++ blanks := by
    rw [htext]
    simp only [List.append_assoc]
    rfl
  have hfields : parseFaultFields (text.bytes.drop 6) (some token) = some (id, row, col, severity) :=
    (parseFaultFields_eq_some h).mpr
      ⟨ids, rows, cols, severities, blanks, hids, hrows, hcols, hseverities, hblanks, hdrop⟩
  have hvalid := (faultIsValid_ofNat hids.le hrows.le hcols.le hseverities.le hr1 hr3 hc1 hc3).mpr
    ⟨hid, hsev⟩
  have hcmp : rtStrncmp text.bytes (ascii "FAULT,") 6 = 0 :=
    (rtStrncmp_fault text.bytes).mpr hstarts
  rw [parseFaultText, if_neg (by simp [tokenIsUsable_some.mpr h])]
  simp only [hcmp, hfields, ne_eq, not_true_eq_false, if_false]
  rw [if_neg (faultGridToId_isSome.mpr ⟨hr1, hr3, hc1, hc3⟩), hvalid]
  rfl

theorem command_of_parseFaultText {text token : CString} (h : UsableToken token)
    {fault : FaultRecord} (haccept : (parseFaultText text (some token) fault).1 = true) :
    ∃ id row col severity, FaultCommand token.bytes text.bytes id row col severity := by
  rw [parseFaultText, if_neg (by simp [tokenIsUsable_some.mpr h])] at haccept
  by_cases hcmp : rtStrncmp text.bytes (ascii "FAULT,") 6 = 0
  · simp only [hcmp, ne_eq, not_true_eq_false, if_false] at haccept
    obtain ⟨rest, hrest⟩ :=
      (rtStrncmp_fault text.bytes).mp hcmp
    have hdrop : text.bytes.drop 6 = rest := by
      rw [← hrest]
      rfl
    cases hfields : parseFaultFields (text.bytes.drop 6) (some token) with
    | none =>
      rw [hfields] at haccept
      exact absurd haccept Bool.false_ne_true
    | some fields =>
      obtain ⟨id, row, col, severity⟩ := fields
      obtain ⟨ids, rows, cols, severities, blanks, hids, hrows, hcols, hseverities, hblanks, htext⟩ :=
        (parseFaultFields_eq_some h).mp hfields
      simp only [hfields] at haccept
      by_cases hgrid : faultGridToId row col = none
      · rw [if_pos hgrid] at haccept
        exact absurd haccept Bool.false_ne_true
      · rw [if_neg hgrid] at haccept
        obtain ⟨hr1, hr3, hc1, hc3⟩ := faultGridToId_isSome.mp hgrid
        obtain ⟨hid, hsev⟩ := (faultIsValid_ofNat hids.le hrows.le hcols.le hseverities.le hr1 hr3 hc1
          hc3).mp haccept
        refine ⟨id, row, col, severity, ?_, hr1, hr3, hc1, hc3, hid, hsev⟩
        refine ⟨ids, rows, cols, severities, blanks, hids, hrows, hcols, hseverities, hblanks, ?_⟩
        rw [← hrest, ← hdrop, htext]
        simp only [List.append_assoc]
  · simp only [ne_eq, hcmp, not_false_eq_true, if_true] at haccept
    exact absurd haccept Bool.false_ne_true

theorem parseStopText_iff {text token : CString} (h : UsableToken token) :
    parseStopText text (some token) = true ↔ StopCommand token.bytes text.bytes := by
  rw [parseStopText, if_neg (by simp [tokenIsUsable_some.mpr h])]
  by_cases hcmp : rtStrncmp text.bytes (ascii "STOP,") 5 = 0
  · obtain ⟨rest, hrest⟩ :=
      (rtStrncmp_stop text.bytes).mp hcmp
    have hdrop : text.bytes.drop 5 = rest := by
      rw [← hrest]
      rfl
    simp only [hcmp, ne_eq, not_true_eq_false, if_false, hdrop, Option.isSome_iff_exists,
      parseTokenField_eq_some h, fieldEnd_nul]
    constructor
    · rintro ⟨_, q, ⟨-, hblanks⟩, rfl⟩
      exact ⟨q, hblanks, by rw [← hrest, List.append_assoc]⟩
    · rintro ⟨blanks, hblanks, htext⟩
      rw [← hrest, List.append_assoc] at htext
      exact ⟨[], blanks, ⟨rfl, hblanks⟩, List.append_cancel_left htext⟩
  · simp only [ne_eq, hcmp, not_false_eq_true, if_true]
    refine ⟨nofun, ?_⟩
    rintro ⟨blanks, -, htext⟩
    refine absurd ((rtStrncmp_stop text.bytes).mpr ?_) hcmp
    exact ⟨token.bytes ++ blanks, by rw [htext, List.append_assoc]⟩

theorem parse_unusable {text : CString} {token : Option CString} {fault : FaultRecord}
    (h : ∀ t, token = some t → ¬ UsableToken t) :
    (parseFaultText text token fault).1 = false ∧ parseStopText text token = false := by
  have hbad : tokenIsUsable token = false := by
    cases token with
    | none => rfl
    | some t => exact Bool.eq_false_iff.mpr fun hu => h t rfl (tokenIsUsable_some.mp hu)
  constructor
  · rw [parseFaultText, if_pos (by simp [hbad])]
  · rw [parseStopText, if_pos (by simp [hbad])]

theorem faultOf_fields {token text : List UInt8} {id row col severity : Nat}
    (h : FaultCommand token text id row col severity) (fault : FaultRecord) :
    (faultOf id row col severity fault).id.toNat = id ∧
      (faultOf id row col severity fault).row.toNat = row ∧
      (faultOf id row col severity fault).col.toNat = col ∧
      (faultOf id row col severity fault).severity.toNat = severity ∧
      (faultOf id row col severity fault).source.toList = ascii "udp" ++ List.replicate 9 0 := by
  obtain ⟨⟨ids, rows, cols, severities, -, hids, hrows, hcols, hseverities, -⟩, -⟩ := h
  have hbyte : ∀ n : Nat, n ≤ 255 → (UInt8.ofNat n).toNat = n := by
    intro n hn
    rw [UInt8.toNat_ofNat', Nat.mod_eq_of_lt (by omega)]
  exact ⟨hbyte id hids.le, hbyte row hrows.le, hbyte col hcols.le, hbyte severity hseverities.le,
    udpSource_toList _⟩

/-- **The command parsers accept exactly their grammars.** -/
theorem command_parsers (text : CString) (token : Option CString) (fault : FaultRecord) :
    ((∀ t, token = some t → ¬ UsableToken t) →
      (parseFaultText text token fault).1 = false ∧ parseStopText text token = false) ∧
    (∀ t, token = some t → UsableToken t →
      ((parseFaultText text token fault).1 = true ↔
        ∃ id row col severity, FaultCommand t.bytes text.bytes id row col severity) ∧
      (∀ id row col severity, FaultCommand t.bytes text.bytes id row col severity →
        let parsed := (parseFaultText text token fault).2
        parsed.id.toNat = id ∧ parsed.row.toNat = row ∧ parsed.col.toNat = col ∧
          parsed.severity.toNat = severity ∧
          parsed.source.toList = ascii "udp" ++ List.replicate 9 0) ∧
      (parseStopText text token = true ↔ StopCommand t.bytes text.bytes)) ∧
    ∀ p, (∀ v ∈ accumulated 0 p, v < 2 ^ 31) ∧
      ∀ v r, uintLoop 0 p = some (v, r) → (accumulated 0 p).getLastD 0 = v := by
  refine ⟨parse_unusable, ?_, fun p => ⟨accumulated_lt (by omega) p, fun _ _ => uintLoop_value⟩⟩
  rintro t rfl ht
  refine ⟨⟨command_of_parseFaultText ht, ?_⟩, ?_, parseStopText_iff ht⟩
  · rintro ⟨id, row, col, severity, hcommand⟩
    rw [parseFaultText_of_command ht hcommand]
  · intro id row col severity hcommand
    rw [parseFaultText_of_command ht hcommand]
    exact faultOf_fields hcommand fault

end Hcics
