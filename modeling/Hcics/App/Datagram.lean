import Hcics.App.Reports
import Hcics.Protocol.Command

/-!
# Datagrams of any length

The receive loop of `hcics_udp_thread` reads a datagram into a buffer of 128 bytes, one of them for
the NUL. `recvfrom` gives it the first 127 bytes of a longer datagram and drops the rest, and the loop
cannot see that there was more: a datagram is obeyed for its first 127 bytes.
-/

namespace Hcics

/-- `recvfrom` with a buffer of `len` bytes: the rest of a longer datagram is discarded. -/
def recvfrom (payload : List UInt8) (len : Nat) : List UInt8 := payload.take len

/-- The `fault` of the receive loop before it is parsed. -/
def unparsedFault : FaultRecord := ⟨⟨0, 0, 0, 0⟩, Vector.replicate 12 0⟩

def textDatagram (token : CString) (peer : Peer) (text : CString) : Datagram :=
  let parsed := parseFaultText text (some token) unparsedFault
  if parsed.1 then .fault ⟨parsed.2.toFault, peer⟩
  else if parseStopText text (some token) then .stop
  else .unknown

/-- What the receive loop makes of a datagram. -/
def udpDatagram (token : CString) (peer : Peer) (payload : List UInt8) : Datagram :=
  let buf := recvfrom payload 127
  if buf = [] then .none
  else if h : 0 ∈ buf then .embeddedNul
  else textDatagram token peer ⟨buf, h⟩

def CommandText (token text : List UInt8) : Prop :=
  (∃ id row col severity, FaultCommand token text id row col severity) ∨ StopCommand token text

/-- The payload as a whole orders the mission. -/
def OrdersMission (token : CString) (payload : List UInt8) (msg : Msg) : Prop :=
  FaultCommand token.bytes payload msg.fault.id.toNat msg.fault.row.toNat msg.fault.col.toNat
    msg.fault.severity.toNat

def Link.NoReceive (l : Link) (i : Link.Input) : Prop :=
  ∀ io sock, i = .udp io → l.udp = .loop sock → io.linkReady = false

/-- Whatever the receive loop does about the payload, up to the next datagram, the payload as a whole
orders: it reserves the mission the payload names, and it calls `hcics_app_stop` for a stop. -/
def WholeObeyed (token : CString) (payload : List UInt8) : Prop :=
  ∀ (l t : Link) (io : NetIo) (sock : Nat) (peer : Peer),
    Link.machine.Reach Machine.free l → l.udp = .loop sock → io.linkReady = true →
    io.datagram = udpDatagram token peer payload →
    Link.machine.Run Link.NoReceive (l.stepUdp io) t →
    (∀ added, t.reserved = l.reserved ++ added →
      ∀ msg ∈ added, msg.peer = peer ∧ OrdersMission token payload msg) ∧
    (∀ pc, t.udp = .stop sock pc → StopCommand token.bytes payload) ∧
    (0 ∈ payload → t.reserved = l.reserved ∧ ∀ pc, t.udp ≠ .stop sock pc)

/-! ## The text of a datagram -/

theorem udpDatagram_of_text {token : CString} {peer : Peer} {payload : List UInt8} {text : CString}
    (h : text.bytes = payload.take 127) (hne : text.bytes ≠ []) :
    udpDatagram token peer payload = textDatagram token peer text := by
  have hbuf : recvfrom payload 127 = text.bytes := h.symm
  have hnul : 0 ∉ recvfrom payload 127 := by
    rw [hbuf]
    exact text.nul_free
  rw [udpDatagram]
  simp only [hbuf, if_neg hne]
  exact dif_neg text.nul_free

theorem udpDatagram_text {token : CString} {peer : Peer} {payload : List UInt8} {d : Datagram}
    (h : udpDatagram token peer payload = d) (hnone : d ≠ .none) (hnul : d ≠ .embeddedNul) :
    ∃ text : CString, text.bytes = payload.take 127 ∧ textDatagram token peer text = d := by
  by_cases hempty : recvfrom payload 127 = []
  · exact absurd (h.symm.trans (if_pos hempty)) hnone
  by_cases hzero : 0 ∈ recvfrom payload 127
  · exact absurd (h.symm.trans ((if_neg hempty).trans (dif_pos hzero))) hnul
  · exact ⟨⟨payload.take 127, hzero⟩, rfl, ((if_neg hempty).trans (dif_neg hzero)).symm.trans h⟩

theorem textDatagram_fault {token text : CString} {peer : Peer} {msg : Msg}
    (h : textDatagram token peer text = .fault msg) :
    msg.peer = peer ∧ UsableToken token ∧ OrdersMission token text.bytes msg := by
  by_cases haccept : (parseFaultText text (some token) unparsedFault).1 = true
  · rw [textDatagram, if_pos haccept, Datagram.fault.injEq] at h
    have husable : UsableToken token := by
      by_contra hbad
      have hreject : (parseFaultText text (some token) unparsedFault).1 = false :=
        (parse_unusable fun t ht => Option.some.inj ht ▸ hbad).1
      exact Bool.noConfusion (haccept.symm.trans hreject)
    obtain ⟨id, row, col, severity, hcommand⟩ := command_of_parseFaultText husable haccept
    rw [parseFaultText_of_command husable hcommand] at h
    obtain ⟨hid, hrow, hcol, hsev, -⟩ := faultOf_fields hcommand unparsedFault
    rw [← h]
    refine ⟨rfl, husable, ?_⟩
    simp only [OrdersMission, hid, hrow, hcol, hsev]
    exact hcommand
  · rw [textDatagram, if_neg haccept] at h
    by_cases hstop : parseStopText text (some token) = true
    · rw [if_pos hstop] at h
      cases h
    · rw [if_neg hstop] at h
      cases h

theorem textDatagram_stop {token text : CString} {peer : Peer}
    (h : textDatagram token peer text = .stop) :
    UsableToken token ∧ StopCommand token.bytes text.bytes := by
  by_cases haccept : (parseFaultText text (some token) unparsedFault).1 = true
  · rw [textDatagram, if_pos haccept] at h
    cases h
  rw [textDatagram, if_neg haccept] at h
  by_cases hstop : parseStopText text (some token) = true
  · have husable : UsableToken token := by
      by_contra hbad
      have hreject : parseStopText text (some token) = false :=
        (@parse_unusable text _ unparsedFault fun t ht => Option.some.inj ht ▸ hbad).2
      exact Bool.noConfusion (hstop.symm.trans hreject)
    exact ⟨husable, (parseStopText_iff husable).mp hstop⟩
  · rw [if_neg hstop] at h
    cases h

theorem textDatagram_of_fault {token text : CString} (peer : Peer) (husable : UsableToken token)
    {id row col severity : Nat} (h : FaultCommand token.bytes text.bytes id row col severity) :
    ∃ msg, textDatagram token peer text = .fault msg ∧ msg.peer = peer ∧ msg.fault.id.toNat = id ∧
      msg.fault.row.toNat = row ∧ msg.fault.col.toNat = col ∧
      msg.fault.severity.toNat = severity ∧ faultIsValid msg.fault = true := by
  have hparse := parseFaultText_of_command husable h unparsedFault
  obtain ⟨hid, hrow, hcol, hsev, -⟩ := faultOf_fields h unparsedFault
  refine ⟨⟨(faultOf id row col severity unparsedFault).toFault, peer⟩, ?_, rfl, hid, hrow, hcol,
    hsev, ?_⟩
  · rw [textDatagram, hparse]
    rfl
  · obtain ⟨⟨ids, rows, cols, severities, -, hids, hrows, hcols, hsevs, -⟩, hr1, hr3, hc1, hc3, hg⟩ := h
    exact (faultIsValid_ofNat hids.le hrows.le hcols.le hsevs.le hr1 hr3 hc1 hc3).mpr hg

theorem textDatagram_of_stop {token text : CString} (peer : Peer) (husable : UsableToken token)
    (h : StopCommand token.bytes text.bytes) : textDatagram token peer text = .stop := by
  have hno : ¬ (parseFaultText text (some token) unparsedFault).1 = true := by
    intro haccept
    obtain ⟨id, row, col, severity, ⟨ids, rows, cols, severities, blanks, -, -, -, -, -, heq⟩, -⟩ :=
      command_of_parseFaultText husable haccept
    obtain ⟨blanks', -, heq'⟩ := h
    have hhead := congrArg List.head? (heq.symm.trans heq')
    simp [ascii] at hhead
  rw [textDatagram, if_neg hno, if_pos ((parseStopText_iff husable).mpr h)]

/-! ## What a payload of any length orders -/

theorem StopCommand.append {token text rest : List UInt8} (h : StopCommand token text)
    (hrest : ∀ c ∈ rest, isBlank c = true) : StopCommand token (text ++ rest) := by
  obtain ⟨blanks, hblanks, rfl⟩ := h
  refine ⟨blanks ++ rest, ?_, by simp only [List.append_assoc]⟩
  intro c hc
  exact (List.mem_append.mp hc).elim (hblanks c) (hrest c)

theorem FaultCommand.append {token text rest : List UInt8} {id row col severity : Nat}
    (h : FaultCommand token text id row col severity) (hrest : ∀ c ∈ rest, isBlank c = true) :
    FaultCommand token (text ++ rest) id row col severity := by
  obtain ⟨⟨ids, rows, cols, severities, blanks, hids, hrows, hcols, hsevs, hblanks, rfl⟩, hgrid⟩ := h
  refine ⟨⟨ids, rows, cols, severities, blanks ++ rest, hids, hrows, hcols, hsevs, ?_, ?_⟩, hgrid⟩
  · intro c hc
    exact (List.mem_append.mp hc).elim (hblanks c) (hrest c)
  · simp only [List.append_assoc]

theorem blank_of_numeral {digits digits' rest blanks : List UInt8} {v : Nat} (hv : 1 ≤ v)
    (h : Numeral digits v) (h' : Numeral digits' v) (hblanks : ∀ c ∈ blanks, isBlank c = true)
    (heq : digits ++ rest = digits' ++ blanks) : ∀ c ∈ rest, isBlank c = true := by
  rcases List.append_eq_append_iff.mp heq with ⟨more, rfl, rfl⟩ | ⟨more, rfl, rfl⟩
  · cases more with
    | nil => exact hblanks
    | cons c more =>
      have hmono := digitsValue_le (v * 10 + (c.toNat - 48)) more
      have hvalue := h'.value
      have hstart := h.value
      simp only [digitsValue, List.foldl_append, List.foldl_cons] at hvalue hstart hmono
      rw [hstart] at hvalue
      omega
  · intro c hc
    exact hblanks c (List.mem_append_right _ hc)

theorem parseTokenField_append {p r : List UInt8} {token : CString} (h : UsableToken token)
    (hp : parseTokenField p comma (some token) = some r) (rest : List UInt8) :
    parseTokenField (p ++ rest) comma (some token) = some (r ++ rest) := by
  obtain ⟨q, hend, rfl⟩ := (parseTokenField_eq_some h).mp hp
  rw [fieldEnd_comma.mp hend]
  exact (parseTokenField_eq_some h).mpr ⟨comma :: (r ++ rest), fieldEnd_comma.mpr rfl, by simp⟩

theorem parseUintField_append {p r : List UInt8} {v : Nat}
    (hp : parseUintField p comma = some (v, r)) (rest : List UInt8) :
    parseUintField (p ++ rest) comma = some (v, r ++ rest) := by
  obtain ⟨digits, hnum, rfl⟩ := parseUintField_comma.mp hp
  exact parseUintField_comma.mpr ⟨digits, hnum, by simp⟩

theorem blank_of_fields {p rest : List UInt8} {token : CString} (h : UsableToken token)
    {id row col severity : Nat} (hsev : 1 ≤ severity)
    (hp : parseFaultFields p (some token) = some (id, row, col, severity))
    (hall : parseFaultFields (p ++ rest) (some token) = some (id, row, col, severity)) :
    ∀ c ∈ rest, isBlank c = true := by
  simp only [parseFaultFields, Option.bind_eq_bind, Option.bind_eq_some_iff, Prod.exists,
    Option.pure_def, Option.some.injEq, Prod.mk.injEq] at hp hall
  obtain ⟨p1, h1, i, p2, h2, r, p3, h3, c, p4, h4, s, p5, h5, rfl, rfl, rfl, rfl⟩ := hp
  obtain ⟨q1, k1, i', q2, k2, r', q3, k3, c', q4, k4, s', q5, k5, hi, hr, hc, hs⟩ := hall
  obtain rfl := Option.some.inj ((parseTokenField_append h h1 rest).symm.trans k1)
  obtain ⟨-, rfl⟩ := Prod.mk.inj (Option.some.inj ((parseUintField_append h2 rest).symm.trans k2))
  obtain ⟨-, rfl⟩ := Prod.mk.inj (Option.some.inj ((parseUintField_append h3 rest).symm.trans k3))
  obtain ⟨-, rfl⟩ := Prod.mk.inj (Option.some.inj ((parseUintField_append h4 rest).symm.trans k4))
  obtain ⟨-, digits, blanks, hnum, hblanks, rfl⟩ := parseUintField_nul.mp h5
  obtain ⟨-, digits', blanks', hnum', hblanks', heq⟩ := parseUintField_nul.mp k5
  rw [hs] at hnum'
  rw [List.append_assoc] at heq
  have hrest := blank_of_numeral hsev hnum hnum' hblanks' heq
  exact fun c hc => hrest c (List.mem_append_right _ hc)

/-- A fault command whose continuation orders the same mission is continued by blanks. -/
theorem FaultCommand.blank_rest {token : CString} (h : UsableToken token) {text rest : List UInt8}
    {id row col severity : Nat} (hcommand : FaultCommand token.bytes text id row col severity)
    (hall : FaultCommand token.bytes (text ++ rest) id row col severity) :
    ∀ c ∈ rest, isBlank c = true := by
  obtain ⟨⟨ids, rows, cols, severities, blanks, hids, hrows, hcols, hsevs, hblanks, rfl⟩, hgrid⟩ :=
    hcommand
  obtain ⟨⟨ids', rows', cols', severities', blanks', hids', hrows', hcols', hsevs', hblanks', heq⟩,
    -⟩ := hall
  refine blank_of_fields h hgrid.2.2.2.2.2 ((parseFaultFields_eq_some h).mpr
    ⟨ids, rows, cols, severities, blanks, hids, hrows, hcols, hsevs, hblanks, rfl⟩)
    ((parseFaultFields_eq_some h).mpr
      ⟨ids', rows', cols', severities', blanks', hids', hrows', hcols', hsevs', hblanks', ?_⟩)
  simp only [List.append_assoc] at heq ⊢
  exact List.append_cancel_left heq

theorem StopCommand.blank_rest {token text rest : List UInt8} (h : StopCommand token text)
    (hall : StopCommand token (text ++ rest)) : ∀ c ∈ rest, isBlank c = true := by
  obtain ⟨blanks, -, rfl⟩ := h
  obtain ⟨blanks', hblanks', heq⟩ := hall
  rw [List.append_assoc] at heq
  have hb := List.append_cancel_left heq
  exact fun c hc => hblanks' c (hb ▸ List.mem_append_right _ hc)

theorem ne_zero_of_blank {c : UInt8} (h : isBlank c = true) : c ≠ 0 := by
  rintro rfl
  exact absurd h (by decide)

theorem Numeral.nul_free {digits : List UInt8} {v : Nat} (h : Numeral digits v) : 0 ∉ digits :=
  fun hc => absurd (h.digit 0 hc) (by decide)

theorem CommandText.nul_free {token : CString} {text : List UInt8}
    (h : CommandText token.bytes text) : 0 ∉ text := by
  have hcomma : (0 : UInt8) ∉ [comma] := by decide
  rcases h with ⟨id, row, col, severity, ⟨ids, rows, cols, severities, blanks, hids, hrows, hcols,
    hsevs, hblanks, rfl⟩, -⟩ | ⟨blanks, hblanks, rfl⟩
  · have hstarts : (0 : UInt8) ∉ ascii "FAULT," := by decide
    have hb : (0 : UInt8) ∉ blanks := fun hc => ne_zero_of_blank (hblanks 0 hc) rfl
    simp only [List.mem_append, not_or]
    exact ⟨⟨⟨⟨⟨⟨⟨⟨⟨⟨hstarts, token.nul_free⟩, hcomma⟩, hids.nul_free⟩, hcomma⟩, hrows.nul_free⟩,
      hcomma⟩, hcols.nul_free⟩, hcomma⟩, hsevs.nul_free⟩, hb⟩
  · have hstarts : (0 : UInt8) ∉ ascii "STOP," := by decide
    have hb : (0 : UInt8) ∉ blanks := fun hc => ne_zero_of_blank (hblanks 0 hc) rfl
    simp only [List.mem_append, not_or]
    exact ⟨⟨hstarts, token.nul_free⟩, hb⟩

theorem CommandText.ne_nil {token text : List UInt8} (h : CommandText token text) : text ≠ [] := by
  rintro rfl
  rcases h with ⟨id, row, col, severity, ⟨ids, rows, cols, severities, blanks, -, -, -, -, -, heq⟩, -⟩ |
    ⟨blanks, -, heq⟩
  · exact absurd heq (by simp [ascii])
  · exact absurd heq (by simp [ascii])

/-! ## One turn of the receive loop -/

/-- The UDP thread handles the datagram `d`, or is done with it. -/
def UdpPc.Handles (d : Datagram) : UdpPc → Prop
  | .flush _ next | .flushSend _ next _ _ | .flushClear _ next _ => next = d ∨ next = .none
  | .pendingCheck _ msg | .enqueue _ msg | .reserve _ msg | .send _ msg | .sendFailed _ msg
  | .reject _ msg | .rejectSend _ msg _ => d = .fault msg
  | .stop _ _ => d = .stop
  | .loop _ | .closed | .closing => True

namespace Link

theorem handles_afterFlush {d next : Datagram} (h : next = d ∨ next = .none) (sock : Nat) :
    (afterFlush sock next).Handles d := by
  rcases h with rfl | rfl
  · cases next <;> trivial
  · trivial

/-- `l'` goes on with `d` and has reserved only what `d` orders. -/
def OnlyFor (d : Datagram) (l l' : Link) : Prop :=
  l'.udp.Handles d ∧ ∃ added, l'.reserved = l.reserved ++ added ∧ ∀ msg ∈ added, d = .fault msg

theorem OnlyFor.same {d : Datagram} {l l' : Link} (h : l'.udp.Handles d)
    (hr : l'.reserved = l.reserved) : OnlyFor d l l' :=
  ⟨h, [], by rw [hr, List.append_nil], nofun⟩

theorem OnlyFor.trans {d : Datagram} {l l' l'' : Link} (h : OnlyFor d l l')
    (h' : OnlyFor d l' l'') : OnlyFor d l l'' := by
  obtain ⟨-, added, hr, hadded⟩ := h
  obtain ⟨hd, more, hr', hmore⟩ := h'
  refine ⟨hd, added ++ more, by rw [hr', hr, List.append_assoc], ?_⟩
  intro msg hmsg
  exact (List.mem_append.mp hmsg).elim (hadded msg) (hmore msg)

theorem onlyFor_stepUdp {d : Datagram} {l : Link} (h : l.udp.Handles d) (io : NetIo)
    (hquiet : ∀ sock, l.udp = .loop sock → io.linkReady = false) : OnlyFor d l (l.stepUdp io) := by
  unfold stepUdp
  cases hudp : l.udp <;> rw [hudp] at h <;> dsimp only
  case closed =>
    cases io.bound with
    | none => exact .same trivial rfl
    | some sock => exact .same (.inr rfl) rfl
  case loop sock =>
    rw [if_neg (by simp [hquiet sock hudp])]
    exact .same trivial rfl
  case flush sock next =>
    have hskip : OnlyFor d l { l with udp := afterFlush sock next } :=
      .same (handles_afterFlush h sock) rfl
    unfold flushPending
    split
    · split
      · exact .same h rfl
      · exact hskip
    · exact hskip
  case flushSend sock next report dst =>
    split
    · exact .same h rfl
    · exact .same (handles_afterFlush h sock) rfl
  case flushClear sock next report =>
    refine .same (handles_afterFlush h sock) ?_
    rw [clearPendingIfCurrent]
    split <;> rfl
  case pendingCheck sock msg =>
    refine .same ?_ rfl
    show UdpPc.Handles d (if l.pending.isSome then .reject sock msg else .enqueue sock msg)
    split <;> exact h
  case enqueue sock msg =>
    split
    · exact .same h rfl
    · refine .same ?_ rfl
      show UdpPc.Handles d (if l.pending.isSome then .reject sock msg else .reserve sock msg)
      split <;> exact h
  case reserve sock msg =>
    unfold reserveMission
    split_ifs
    · exact .same h rfl
    · exact .same h rfl
    · exact .same h rfl
    · exact ⟨h, [msg], rfl, fun m hm => by rw [List.mem_singleton.mp hm]; exact h⟩
  case send sock msg =>
    unfold mqSend
    split
    · exact .same h rfl
    · exact .same trivial rfl
  case sendFailed sock msg => exact .same h rfl
  case reject sock msg => exact .same h rfl
  case rejectSend sock msg dst => exact .same trivial rfl
  case stop sock pc =>
    refine .same ?_ rfl
    cases pc <;> first | exact h | trivial
  case closing => exact .same trivial rfl

/-- **Between two receptions the receive loop acts on one datagram only.** -/
theorem run_onlyFor {d : Datagram} {l t : Link} (h : l.udp.Handles d)
    (hrun : machine.Run NoReceive l t) : OnlyFor d l t := by
  refine hrun.inv (OnlyFor.same h rfl) ?_
  intro t i t' _ ht hok hstep
  cases i with
  | udp io =>
    obtain rfl := Option.some.inj hstep
    exact ht.trans (onlyFor_stepUdp ht.1 io fun sock hsock => hok io sock rfl hsock)
  | mission io =>
    obtain ⟨hudp, hreserved, -⟩ := stepMission_frame hstep
    exact ht.trans (.same (hudp ▸ ht.1) hreserved)
  | finish done =>
    obtain ⟨msg, -, rfl⟩ := finish_case hstep
    exact ht.trans (.same ht.1 rfl)

theorem handles_received (sock : Nat) (d : Datagram) : (received sock d).Handles d := by
  cases d <;> first | trivial | exact .inl rfl

/-! ## Acting on a datagram -/

/-- The receive loop with nothing to do. -/
def listening : Link := { booted with udpSock := some 0, udp := .loop 0 }

theorem listening_reach : machine.Reach Machine.free listening := by
  have hexec : machine.exec booted [.udp {}, .udp {}] = some listening := rfl
  exact .of_exec rfl hexec

theorem run_udp {l : Link} (hudp : ∀ sock, l.udp ≠ .loop sock) :
    machine.Run NoReceive l (l.stepUdp {}) :=
  .single (i := .udp {}) (fun _ sock _ h => absurd h (hudp sock)) rfl

theorem listening_fault {msg : Msg} (hvalid : faultIsValid msg.fault = true) :
    ∃ t, machine.Run NoReceive (listening.stepUdp { datagram := .fault msg }) t ∧
      t.reserved = listening.reserved ++ [msg] := by
  let flush : Link := { listening with udp := .flush 0 (.fault msg) }
  let check : Link := { listening with udp := .pendingCheck 0 msg }
  let enqueue : Link := { listening with udp := .enqueue 0 msg }
  let reserve : Link := { listening with udp := .reserve 0 msg }
  have h1 : machine.Run NoReceive flush check := run_udp (by simp [flush])
  have h2 : machine.Run NoReceive check enqueue := run_udp (by simp [check])
  have h3 : machine.Run NoReceive enqueue reserve := by
    have hstep : enqueue.stepUdp {} = reserve := by
      simp [enqueue, reserve, stepUdp, hvalid, listening, booted]
    exact hstep ▸ run_udp (by simp [enqueue])
  refine ⟨reserve.stepUdp {}, ((h1.trans h2).trans h3).trans (run_udp (by simp [reserve])), ?_⟩
  simp [reserve, stepUdp, reserveMission, hvalid, listening, booted]

theorem listening_stop :
    machine.Run NoReceive (listening.stepUdp { datagram := .stop })
      { listening with udp := .stop 0 .abort } := by
  have h : machine.Run NoReceive { listening with udp := .flush 0 .stop }
      { listening with udp := .stop 0 .abort } := run_udp nofun
  exact h

end Link

/-! ## Whole datagrams -/

/-- A datagram of at most 127 bytes, or with blanks behind them, or that is no command up to there,
is obeyed as a whole. -/
theorem wholeObeyed_of {token : CString} {payload : List UInt8}
    (h : (∀ c ∈ payload.drop 127, isBlank c = true) ∨
      ¬ (UsableToken token ∧ CommandText token.bytes (payload.take 127))) :
    WholeObeyed token payload := by
  intro l t io sock peer _ hloop hready hdata hrun
  have hstart : l.stepUdp io = { l with udp := Link.received sock io.datagram } := by
    rw [Link.stepUdp, hloop]
    exact if_pos hready
  rw [hstart] at hrun
  obtain ⟨hhandles, added, hreserved, hadded⟩ :=
    Link.run_onlyFor (l := { l with udp := Link.received sock io.datagram })
      (Link.handles_received sock io.datagram) hrun
  rw [hdata] at hhandles hadded
  have hfault : ∀ msg, udpDatagram token peer payload = .fault msg →
      msg.peer = peer ∧ OrdersMission token payload msg := by
    intro msg hmsg
    obtain ⟨text, hbytes, htext⟩ := udpDatagram_text hmsg nofun nofun
    obtain ⟨hpeer, husable, horders⟩ := textDatagram_fault htext
    rw [hbytes] at horders
    rcases h with hblank | hno
    · have hall := FaultCommand.append horders hblank
      rw [List.take_append_drop] at hall
      exact ⟨hpeer, hall⟩
    · exact absurd ⟨husable, .inl ⟨_, _, _, _, horders⟩⟩ hno
  have hstop : udpDatagram token peer payload = .stop → StopCommand token.bytes payload := by
    intro hmsg
    obtain ⟨text, hbytes, htext⟩ := udpDatagram_text hmsg nofun nofun
    obtain ⟨husable, horders⟩ := textDatagram_stop htext
    rw [hbytes] at horders
    rcases h with hblank | hno
    · have hall := horders.append hblank
      rwa [List.take_append_drop] at hall
    · exact absurd ⟨husable, .inr horders⟩ hno
  refine ⟨?_, ?_, ?_⟩
  · intro added' hreserved' msg hmsg
    obtain rfl := List.append_cancel_left (hreserved'.symm.trans hreserved)
    exact hfault msg (hadded msg hmsg)
  · intro pc hpc
    rw [hpc] at hhandles
    exact hstop hhandles
  · intro hnul
    refine ⟨?_, ?_⟩
    · cases added with
      | nil => rw [hreserved, List.append_nil]
      | cons msg added =>
        have horders := (hfault msg (hadded msg List.mem_cons_self)).2
        exact absurd hnul (CommandText.nul_free (.inl ⟨_, _, _, _, horders⟩))
    · intro pc hpc
      rw [hpc] at hhandles
      exact absurd hnul (CommandText.nul_free (.inr (hstop hhandles)))

/-- A longer datagram that is a command up to its 127th byte, and more than that, is not. -/
theorem not_wholeObeyed {token : CString} {payload : List UInt8} (husable : UsableToken token)
    (hcommand : CommandText token.bytes (payload.take 127))
    (hmore : ¬ ∀ c ∈ payload.drop 127, isBlank c = true) : ¬ WholeObeyed token payload := by
  intro hwhole
  let text : CString := ⟨payload.take 127, hcommand.nul_free⟩
  have hdatagram : udpDatagram token ⟨0, 0, 0⟩ payload = textDatagram token ⟨0, 0, 0⟩ text :=
    udpDatagram_of_text rfl hcommand.ne_nil
  rcases hcommand with ⟨id, row, col, severity, hfault⟩ | hstop
  · obtain ⟨msg, htext, -, rfl, rfl, rfl, rfl, hvalid⟩ :=
      @textDatagram_of_fault token text ⟨0, 0, 0⟩ husable _ _ _ _ hfault
    obtain ⟨t, hrun, hreserved⟩ := Link.listening_fault hvalid
    have hacts := hwhole Link.listening t { datagram := .fault msg } 0 ⟨0, 0, 0⟩ Link.listening_reach
      rfl rfl (htext.symm.trans hdatagram.symm) hrun
    have horders := (hacts.1 [msg] hreserved msg List.mem_cons_self).2
    rw [OrdersMission, ← List.take_append_drop 127 payload] at horders
    exact hmore (hfault.blank_rest husable horders)
  · have htext : textDatagram token ⟨0, 0, 0⟩ text = .stop := textDatagram_of_stop _ husable hstop
    have hacts := hwhole Link.listening _ { datagram := .stop } 0 ⟨0, 0, 0⟩ Link.listening_reach
      rfl rfl (htext.symm.trans hdatagram.symm) Link.listening_stop
    have horders := hacts.2.1 .abort rfl
    rw [← List.take_append_drop 127 payload] at horders
    exact hmore (hstop.blank_rest horders)

/-- **When a datagram is obeyed as a whole**: exactly when it is blank behind its 127th byte, as it is
where it has no more bytes, or no command up to there. -/
theorem wholeObeyed_iff (token : CString) (payload : List UInt8) :
    WholeObeyed token payload ↔
      (∀ c ∈ payload.drop 127, isBlank c = true) ∨
        ¬ (UsableToken token ∧ CommandText token.bytes (payload.take 127)) := by
  constructor
  · intro hwhole
    by_contra hno
    rw [not_or, not_not] at hno
    exact not_wholeObeyed hno.2.1 hno.2.2 hno.1 hwhole
  · exact wholeObeyed_of

def defaultToken : CString := ⟨ascii "change-me", by decide⟩

/-- A fault command up to its 127th byte; its severity goes on to 1999. -/
def paddedFault : List UInt8 :=
  ascii "FAULT,change-me,5,2,2," ++ List.replicate 104 48 ++ [49] ++ ascii "999"

theorem paddedFault_cut : CommandText defaultToken.bytes (paddedFault.take 127) := by
  refine .inl ⟨5, 2, 2, 1, ⟨ascii "5", ascii "2", ascii "2", List.replicate 104 48 ++ [49], [],
    ⟨by decide, by decide +kernel, by decide, by decide⟩,
    ⟨by decide, by decide +kernel, by decide, by decide⟩,
    ⟨by decide, by decide +kernel, by decide, by decide⟩,
    ⟨by decide, by decide +kernel, by decide +kernel, by decide⟩, nofun, by decide +kernel⟩,
    by decide, by decide, by decide, by decide, by decide, by decide⟩

theorem paddedFault_obeyed : ¬ WholeObeyed defaultToken paddedFault :=
  not_wholeObeyed ⟨by decide, by decide +kernel⟩ paddedFault_cut (by decide +kernel)

end Hcics
