import Cosmid.NephexExport
import Cosmid.SerioInput
import Cosmid.XiomasSystem

/-! The loop of the two `app_input` functions. It comes back to a packet that is not a
control packet for ever, so whether it ends is decided by the packets it comes to. -/
namespace Cosmid

/-- What the function reports. -/
inductive AckReport
  | invalidLength (length : ℕ)
  | ackExceeds (length : ℕ)
  | unsupportedSubtype (subtype : ℕ)
  | unsupportedType (type : UInt8)
deriving DecidableEq

/-- What an ACK is compared with, and what it does. A failed `nl_assert` in it is `none`. -/
structure AckTarget (σ : Type) where
  outstandingBytes : σ → ℕ
  appInputAck : σ → ℕ → Option σ

/-- The object with its input buffer. -/
structure AckInput (σ : Type) where
  exp : σ
  ibuf : InputBuffer
  reports : List AckReport

namespace AckInput

variable {σ : Type} {serio : SerioLib}

def report (s : AckInput σ) (r : AckReport) : AckInput σ := {s with reports := s.reports ++ [r]}

/-- Case `ctrl_subtype_ACK`. -/
def ackCase (target : AckTarget σ) (s : AckInput σ) (length : ℕ) : Option (AckInput σ) :=
  let s' := if length > target.outstandingBytes s.exp then s.report (.ackExceeds length) else s
  (target.appInputAck s.exp length).map fun exp => {s' with exp := exp}

/-- One turn of the loop. The Boolean is true if the loop goes on. -/
def loopTurn (io : DasIO) (lib : SerioInput serio) (target : AckTarget σ) (s : AckInput σ) :
    Option (AckInput σ × Bool) :=
  match lib.notSerioPkt s.ibuf with
  | (none, b) => some ({s with ibuf := b}, false)
  | (some pkt, b) =>
    let s := {s with ibuf := b}
    if pkt.type = lib.pktTypeCTRL then
      if pkt.payload.length ≠ lib.ctrlPayloadSize then
        some ({s.report (.invalidLength pkt.payload.length) with ibuf := ⟨b.buf,b.cp+1⟩}, true)
      else
        (if lib.ctrlSubtype pkt.payload = lib.ctrlSubtypeACK then
          s.ackCase target (lib.ctrlLength pkt.payload)
        else some (s.report (.unsupportedSubtype (lib.ctrlSubtype pkt.payload)))).map fun s =>
          ({s with ibuf := io.reportOk (SerioLib.pktHdrSize+pkt.payload.length) s.ibuf}, true)
    -- The default case neither reports the packet as parsed nor moves `cp`.
    else some (s.report (.unsupportedType pkt.type), true)

/-- The loop for `fuel` turns: `none` if it has not ended by then, and `some none` if an
assertion has failed. -/
def loop (io : DasIO) (lib : SerioInput serio) (target : AckTarget σ) :
    ℕ → AckInput σ → Option (Option (AckInput σ))
  | 0, _ => none
  | fuel+1, s =>
    if s.ibuf.cp < s.ibuf.nc then
      match loopTurn io lib target s with
      | none => some none
      | some (s', true) => loop io lib target fuel s'
      | some (s', false) => some (some s')
    else some (some s)

/-- The loop ends after finitely many turns, and not with a failed assertion. -/
def Returns (io : DasIO) (lib : SerioInput serio) (target : AckTarget σ) (s : AckInput σ) : Prop :=
  ∃ fuel s', loop io lib target fuel s = some (some s')

end AckInput

namespace SerioInput

variable {serio : SerioLib}

/-- The buffer behind a control packet at `cp`. -/
def skipControl (io : DasIO) (lib : SerioInput serio) (pkt : SerioPkt) (b : InputBuffer) :
    InputBuffer :=
  if pkt.payload.length ≠ lib.ctrlPayloadSize then ⟨b.buf,b.cp+1⟩
  else io.reportOk (SerioLib.pktHdrSize+pkt.payload.length) b

/-- A control packet is progress: the buffer gets shorter, or `cp` moves forward in it. -/
theorem skipControl_lt (io : DasIO) (lib : SerioInput serio) (b b' : InputBuffer) (pkt : SerioPkt)
    (hlt : b.cp < b.nc) (h : lib.notSerioPkt b = (some pkt, b')) :
    Prod.Lex (· < ·) (· < ·)
      ((lib.skipControl io pkt b').nc, (lib.skipControl io pkt b').nc-(lib.skipControl io pkt b').cp)
      (b.nc, b.nc-b.cp) := by
  rcases lib.notSerioPkt_cases b with ⟨c, hc⟩ | ⟨p, q, hp, hq, hc⟩
  · rw [hc] at h
    cases h
  · rw [hc] at h
    obtain ⟨h1, rfl⟩ := Prod.mk.inj h
    obtain rfl := Option.some.inj h1
    unfold skipControl
    split_ifs
    · rw [Prod.lex_def]
      right
      simp only [InputBuffer.nc_mk]
      refine ⟨rfl, ?_⟩
      have hle := serio.packetAt_le b.buf p q hq
      unfold SerioLib.pktHdrSize at hle
      unfold InputBuffer.nc
      omega
    · apply Prod.Lex.left
      rw [InputBuffer.nc, io.reportOk_buf, List.length_drop]
      unfold SerioLib.pktHdrSize
      unfold InputBuffer.nc at *
      dsimp only
      omega

/-- The packets that the loop comes to, up to the first one that is not a control packet. -/
def comesTo (io : DasIO) (lib : SerioInput serio) (b : InputBuffer) : List SerioPkt :=
  if _hlt : b.cp < b.nc then
    match _h : lib.notSerioPkt b with
    | (none, _) => []
    | (some pkt, b') =>
      if pkt.type = lib.pktTypeCTRL then pkt :: lib.comesTo io (lib.skipControl io pkt b')
      else [pkt]
  else []
termination_by (b.nc, b.nc-b.cp)
decreasing_by exact lib.skipControl_lt io b b' pkt _hlt _h

theorem comesTo_end (io : DasIO) (lib : SerioInput serio) (b : InputBuffer)
    (h : ¬b.cp < b.nc) : lib.comesTo io b = [] := by
  rw [comesTo, dif_neg h]

theorem comesTo_none (io : DasIO) (lib : SerioInput serio) (b b' : InputBuffer)
    (h : lib.notSerioPkt b = (none, b')) : lib.comesTo io b = [] := by
  rw [comesTo]
  split
  · split
    · rfl
    · rename_i h'
      rw [h] at h'
      cases h'
  · rfl

theorem comesTo_found (io : DasIO) (lib : SerioInput serio) (b b' : InputBuffer) (pkt : SerioPkt)
    (hlt : b.cp < b.nc) (h : lib.notSerioPkt b = (some pkt, b')) :
    lib.comesTo io b = if pkt.type = lib.pktTypeCTRL then
      pkt :: lib.comesTo io (lib.skipControl io pkt b') else [pkt] := by
  rw [comesTo, dif_pos hlt]
  split
  · rename_i h'
    rw [h] at h'
    cases h'
  · rename_i h'
    rw [h] at h'
    obtain ⟨h1, rfl⟩ := Prod.mk.inj h'
    obtain rfl := Option.some.inj h1
    rfl

/-- A packet of another type is all that the loop comes to. -/
theorem comesTo_other (io : DasIO) (lib : SerioInput serio) (b b' : InputBuffer) (pkt : SerioPkt)
    (hlt : b.cp < b.nc) (h : lib.notSerioPkt b = (some pkt, b'))
    (htype : pkt.type ≠ lib.pktTypeCTRL) : lib.comesTo io b = [pkt] ∧ lib.comesTo io b' = [pkt] := by
  refine ⟨by rw [lib.comesTo_found io b b' pkt hlt h, if_neg htype], ?_⟩
  rcases lib.notSerioPkt_cases b with ⟨c, hc⟩ | ⟨p, q, hp, hq, hc⟩
  · rw [hc] at h
    cases h
  · rw [hc] at h
    obtain ⟨h1, rfl⟩ := Prod.mk.inj h
    obtain rfl := Option.some.inj h1
    have hle := serio.packetAt_le b.buf p q hq
    have hlt' : p < b.buf.length := by
      unfold SerioLib.pktHdrSize at hle
      omega
    rw [lib.comesTo_found io ⟨b.buf,p⟩ _ q hlt' (lib.notSerioPkt_again b.buf p q hq), if_neg htype]

/-- The packet at the front of the buffer is the first one that the loop comes to. -/
theorem comesTo_front (io : DasIO) (lib : SerioInput serio) (type : UInt8)
    (payload rest : List UInt8) (h : payload.length < 65536) :
    lib.comesTo io ⟨serio.mkHdr type payload ++ (payload ++ rest),0⟩ =
      if type = lib.pktTypeCTRL then ⟨type,payload⟩ :: lib.comesTo io
        (lib.skipControl io ⟨type,payload⟩ ⟨serio.mkHdr type payload ++ (payload ++ rest),0⟩)
      else [⟨type,payload⟩] := by
  have hpos : 0 < (serio.mkHdr type payload ++ (payload ++ rest)).length := by
    rw [List.length_append, SerioLib.length_mkHdr]
    exact Nat.add_pos_left (by decide) _
  exact lib.comesTo_found io _ _ ⟨type,payload⟩ hpos
    (lib.notSerioPkt_again _ 0 _ (serio.packetAt_mkHdr type payload rest h))

/-- A control packet of the right size at the front is dropped as a whole. -/
theorem skipControl_front (io : DasIO) (lib : SerioInput serio) (type : UInt8)
    (payload rest : List UInt8) (h : payload.length = lib.ctrlPayloadSize) :
    lib.skipControl io ⟨type,payload⟩ ⟨serio.mkHdr type payload ++ (payload ++ rest),0⟩ =
      ⟨rest,0⟩ := by
  have hbuf : (serio.mkHdr type payload ++ (payload ++ rest)).drop
      (SerioLib.pktHdrSize+payload.length) = rest := by
    rw [← List.append_assoc]
    apply List.drop_left'
    rw [List.length_append, SerioLib.length_mkHdr]
  rw [skipControl, if_neg (not_not.mpr h)]
  generalize hn : SerioLib.pktHdrSize+payload.length = n at hbuf
  have hb := io.reportOk_buf n ⟨serio.mkHdr type payload ++ (payload ++ rest),0⟩
  have hc := io.reportOk_cp n ⟨serio.mkHdr type payload ++ (payload ++ rest),0⟩ (Nat.zero_le n)
  generalize io.reportOk n _ = b at hb hc
  rcases b with ⟨buf, cp⟩
  obtain rfl : buf = rest := hb.trans hbuf
  obtain rfl : cp = 0 := hc
  rfl

end SerioInput

namespace AckInput

variable {σ : Type} {serio : SerioLib}

theorem loopTurn_none (io : DasIO) (lib : SerioInput serio) (target : AckTarget σ)
    (s : AckInput σ) (b : InputBuffer) (h : lib.notSerioPkt s.ibuf = (none, b)) :
    loopTurn io lib target s = some ({s with ibuf := b}, false) := by
  rw [loopTurn, h]

/-- A turn at a packet of another type only reports it. -/
theorem loopTurn_other (io : DasIO) (lib : SerioInput serio) (target : AckTarget σ)
    (s : AckInput σ) (b : InputBuffer) (pkt : SerioPkt)
    (h : lib.notSerioPkt s.ibuf = (some pkt, b)) (htype : pkt.type ≠ lib.pktTypeCTRL) :
    loopTurn io lib target s =
      some ({s with ibuf := b, reports := s.reports ++ [.unsupportedType pkt.type]}, true) := by
  rw [loopTurn, h]
  dsimp only
  rw [if_neg htype]
  rfl

theorem ackCase_spec (target : AckTarget σ) (s : AckInput σ) (length : ℕ) (exp : σ)
    (h : target.appInputAck s.exp length = some exp) :
    ∃ s', s.ackCase target length = some s' ∧ s'.exp = exp ∧ s'.ibuf = s.ibuf := by
  unfold ackCase
  dsimp only
  rw [h]
  refine ⟨_, rfl, rfl, ?_⟩
  split_ifs <;> rfl

section

variable (target : AckTarget σ) (Inv : σ → Prop)
  (hack : ∀ exp length, Inv exp → ∃ exp', target.appInputAck exp length = some exp' ∧ Inv exp')

include hack

/-- A turn at a control packet goes on behind it. -/
theorem loopTurn_control (io : DasIO) (lib : SerioInput serio) (s : AckInput σ) (b : InputBuffer)
    (pkt : SerioPkt) (h : lib.notSerioPkt s.ibuf = (some pkt, b))
    (htype : pkt.type = lib.pktTypeCTRL) (hinv : Inv s.exp) :
    ∃ s', loopTurn io lib target s = some (s', true) ∧ Inv s'.exp ∧
      s'.ibuf = lib.skipControl io pkt b := by
  rw [loopTurn, h]
  dsimp only
  rw [if_pos htype, SerioInput.skipControl]
  split_ifs with hlength hsubtype
  · exact ⟨_, rfl, hinv, rfl⟩
  · obtain ⟨exp, hexp, hinv'⟩ := hack s.exp (lib.ctrlLength pkt.payload) hinv
    obtain ⟨s', hs', hexp', hib⟩ := ackCase_spec target {s with ibuf := b} _ exp hexp
    rw [hs']
    refine ⟨_, rfl, ?_, ?_⟩
    · dsimp only
      rw [hexp']
      exact hinv'
    · dsimp only
      rw [hib]
  · exact ⟨_, rfl, hinv, rfl⟩

/-- The loop ends if it comes to control packets only. The induction is on these packets. -/
theorem returns_of_control (io : DasIO) (lib : SerioInput serio) (s : AckInput σ)
    (hinv : Inv s.exp) (h : ∀ pkt ∈ lib.comesTo io s.ibuf, pkt.type = lib.pktTypeCTRL) :
    Returns io lib target s := by
  generalize hpkts : lib.comesTo io s.ibuf = pkts at h
  induction pkts generalizing s with
  | nil =>
    refine ⟨1, ?_⟩
    rw [loop]
    by_cases hlt : s.ibuf.cp < s.ibuf.nc
    · rcases lib.notSerioPkt_cases s.ibuf with ⟨c, hc⟩ | ⟨p, q, hp, hq, hc⟩
      · rw [if_pos hlt, loopTurn_none io lib target s c hc]
        exact ⟨_, rfl⟩
      · rw [lib.comesTo_found io s.ibuf _ q hlt hc] at hpkts
        split_ifs at hpkts
    · rw [if_neg hlt]
      exact ⟨s, rfl⟩
  | cons pkt pkts ih =>
    have hlt : s.ibuf.cp < s.ibuf.nc := by
      by_contra hlt
      rw [lib.comesTo_end io s.ibuf hlt] at hpkts
      cases hpkts
    obtain ⟨htype, htypes⟩ := List.forall_mem_cons.mp h
    rcases lib.notSerioPkt_cases s.ibuf with ⟨c, hc⟩ | ⟨p, q, hp, hq, hc⟩
    · rw [lib.comesTo_none io s.ibuf c hc] at hpkts
      cases hpkts
    · rw [lib.comesTo_found io s.ibuf _ q hlt hc] at hpkts
      have hq : q = pkt := by
        split_ifs at hpkts <;> exact (List.cons.inj hpkts).1
      subst hq
      rw [if_pos htype] at hpkts
      obtain ⟨s', hs', hinv', hib⟩ :=
        loopTurn_control target Inv hack io lib s _ q hc htype hinv
      obtain ⟨fuel, s'', hrun⟩ := ih s' hinv' (by rw [hib]; exact (List.cons.inj hpkts).2) htypes
      refine ⟨fuel+1, s'', ?_⟩
      rw [loop, if_pos hlt, hs']
      exact hrun

/-- Conversely, if the loop ends, it has come to nothing else: it would still be there. -/
theorem control_of_loop (io : DasIO) (lib : SerioInput serio) (fuel : ℕ) (s s' : AckInput σ)
    (hinv : Inv s.exp) (h : loop io lib target fuel s = some (some s')) :
    ∀ pkt ∈ lib.comesTo io s.ibuf, pkt.type = lib.pktTypeCTRL := by
  induction fuel generalizing s with
  | zero => cases h
  | succ fuel ih =>
    by_cases hlt : s.ibuf.cp < s.ibuf.nc
    · rw [loop, if_pos hlt] at h
      rcases lib.notSerioPkt_cases s.ibuf with ⟨c, hc⟩ | ⟨p, q, hp, hq, hc⟩
      · rw [lib.comesTo_none io s.ibuf c hc]
        simp
      · by_cases htype : q.type = lib.pktTypeCTRL
        · obtain ⟨t, ht, hinv', hib⟩ :=
            loopTurn_control target Inv hack io lib s _ q hc htype hinv
          rw [ht] at h
          rw [lib.comesTo_found io s.ibuf _ q hlt hc, if_pos htype, List.forall_mem_cons, ← hib]
          exact ⟨htype, ih t hinv' h⟩
        · obtain ⟨hfst, hsnd⟩ := lib.comesTo_other io s.ibuf _ q hlt hc htype
          rw [loopTurn_other io lib target s _ q hc htype] at h
          have hagain := ih {s with
            ibuf := ⟨s.ibuf.buf,p⟩
            reports := s.reports ++ [.unsupportedType q.type]} hinv h
          rw [hsnd] at hagain
          rw [hfst]
          exact hagain
    · rw [lib.comesTo_end io s.ibuf hlt]
      simp

theorem returns_iff (io : DasIO) (lib : SerioInput serio) (s : AckInput σ) (hinv : Inv s.exp) :
    Returns io lib target s ↔ ∀ pkt ∈ lib.comesTo io s.ibuf, pkt.type = lib.pktTypeCTRL := by
  constructor
  · rintro ⟨fuel, s', hloop⟩
    exact control_of_loop target Inv hack io lib fuel s s' hinv hloop
  · exact returns_of_control target Inv hack io lib s hinv

end

end AckInput

namespace Xiomas.XiomasTcpExport

variable {out : OutputSocket} {ι : Type} {serio : SerioLib}

def ackTarget : AckTarget (XiomasTcpExport out ι) := ⟨outstandingBytes,appInputAck⟩

/-- `app_input`, for `fuel` turns of its loop. -/
def appInput (io : DasIO) (lib : SerioInput serio) (x : XiomasTcpExport out ι) (ibuf : InputBuffer)
    (fuel : ℕ) : Option (Option (AckInput (XiomasTcpExport out ι))) :=
  AckInput.loop io lib ackTarget fuel ⟨x,ibuf,[]⟩

/-- No assertion fails in an ACK. -/
theorem ackTarget_circValid (x : XiomasTcpExport out ι) (length : ℕ) (hv : x.CircValid) :
    ∃ y, ackTarget.appInputAck x length = some y ∧ y.CircValid := by
  obtain ⟨n, y, hy, hd⟩ := x.appInputAck_spec hv length
  exact ⟨y, hy, hd.valid⟩

end Xiomas.XiomasTcpExport

namespace Nephex.NephexTcpExport

variable {out : OutputSocket} {serio : SerioLib}

def ackTarget : AckTarget (NephexTcpExport out) :=
  ⟨outstandingBytes,fun x length => some (x.appInputAck length)⟩

/-- `app_input`, for `fuel` turns of its loop. -/
def appInput (io : DasIO) (lib : SerioInput serio) (x : NephexTcpExport out) (ibuf : InputBuffer)
    (fuel : ℕ) : Option (Option (AckInput (NephexTcpExport out))) :=
  AckInput.loop io lib ackTarget fuel ⟨x,ibuf,[]⟩

end Nephex.NephexTcpExport

open Xiomas Nephex

/-- Both functions return if and only if every packet that the loop comes to is a control
packet. -/
theorem app_input_returns_iff (out : OutputSocket) (ι : Type) (io : DasIO) {serio : SerioLib}
    (lib : SerioInput serio) :
    (∀ (circ : ℕ → UInt8) (sock : out.State) (ops : List (ExportOp out ι))
      (x : XiomasTcpExport out ι), Run.run (exportStep serio) (.new circ sock) ops = some x →
      ∀ b, (∃ fuel s, x.appInput io lib b fuel = some (some s)) ↔
        ∀ pkt ∈ lib.comesTo io b, pkt.type = lib.pktTypeCTRL) ∧
    ∀ (x : NephexTcpExport out) b, (∃ fuel s, x.appInput io lib b fuel = some (some s)) ↔
      ∀ pkt ∈ lib.comesTo io b, pkt.type = lib.pktTypeCTRL := by
  constructor
  · intro circ sock ops x hrun b
    obtain ⟨y, hy, hv, -⟩ := exportRun_valid serio _ (XiomasTcpExport.circValid_new circ sock) ops
    obtain rfl := Option.some.inj (hrun.symm.trans hy)
    exact AckInput.returns_iff XiomasTcpExport.ackTarget XiomasTcpExport.CircValid
      XiomasTcpExport.ackTarget_circValid io lib ⟨x,b,[]⟩ hv
  · intro x b
    exact AckInput.returns_iff NephexTcpExport.ackTarget (fun _ => True)
      (fun exp length _ => ⟨_, rfl, trivial⟩) io lib ⟨x,b,[]⟩ trivial

/-- An ACK for 5 bytes. -/
def ackFive : List UInt8 := [0, 0, 5, 0]

theorem app_input_returns_ack :
    (∃ fuel s, (XiomasTcpExport.new (fun _ => 0) () : XiomasTcpExport .direct Unit).appInput
      DasIO.keeping (.searching .packed) ⟨SerioLib.packed.mkHdr 0 ackFive ++ (ackFive ++ []),0⟩
      fuel = some (some s)) ∧
    ∃ fuel s, (NephexTcpExport.new () : NephexTcpExport .direct).appInput
      DasIO.keeping (.searching .packed) ⟨SerioLib.packed.mkHdr 0 ackFive ++ (ackFive ++ []),0⟩
      fuel = some (some s) := by
  have hcontrol : ∀ pkt ∈ (SerioInput.searching .packed).comesTo DasIO.keeping
      ⟨SerioLib.packed.mkHdr 0 ackFive ++ (ackFive ++ []),0⟩, pkt.type = 0 := by
    have hctrl : 0 = (SerioInput.searching .packed).pktTypeCTRL := rfl
    rw [SerioInput.comesTo_front _ _ _ _ _ (by decide), if_pos hctrl,
      SerioInput.skipControl_front _ _ _ _ _ rfl, SerioInput.comesTo_end _ _ _ (by decide)]
    simp
  obtain ⟨hx, hn⟩ := app_input_returns_iff .direct Unit DasIO.keeping (.searching .packed)
  exact ⟨(hx (fun _ => 0) () [] _ rfl _).mpr hcontrol, (hn _ _).mpr hcontrol⟩

/-- An empty packet of the type that `xiomas_tcp_export` itself sends. -/
theorem app_input_hangs :
    (¬∃ fuel s, (XiomasTcpExport.new (fun _ => 0) () : XiomasTcpExport .direct Unit).appInput
      DasIO.keeping (.searching .packed) ⟨SerioLib.packed.mkHdr 1 [] ++ ([] ++ []),0⟩
      fuel = some (some s)) ∧
    ¬∃ fuel s, (NephexTcpExport.new () : NephexTcpExport .direct).appInput
      DasIO.keeping (.searching .packed) ⟨SerioLib.packed.mkHdr 1 [] ++ ([] ++ []),0⟩
      fuel = some (some s) := by
  have hother : ¬∀ pkt ∈ (SerioInput.searching .packed).comesTo DasIO.keeping
      ⟨SerioLib.packed.mkHdr 1 [] ++ ([] ++ []),0⟩, pkt.type = 0 := by
    rw [SerioInput.comesTo_front _ _ _ _ _ (by decide), if_neg (by decide)]
    simp
  constructor
  · rintro ⟨fuel, s, hloop⟩
    exact hother (AckInput.control_of_loop XiomasTcpExport.ackTarget XiomasTcpExport.CircValid
      XiomasTcpExport.ackTarget_circValid DasIO.keeping (.searching .packed) fuel ⟨_,_,[]⟩ s
      (XiomasTcpExport.circValid_new _ _) hloop)
  · rintro ⟨fuel, s, hloop⟩
    exact hother (AckInput.control_of_loop NephexTcpExport.ackTarget (fun _ => True)
      (fun exp length _ => ⟨_, rfl, trivial⟩) DasIO.keeping (.searching .packed) fuel ⟨_,_,[]⟩ s
      trivial hloop)

end Cosmid
