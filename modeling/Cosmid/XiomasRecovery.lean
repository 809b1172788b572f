import Cosmid.XiomasSearch
import Cosmid.XiomasSystem

/-! Which packets of a stream a connection's receiver recovers. -/
namespace Cosmid.Xiomas

open RcvrEvent XiomasTcpRcvr SysEvent XioSystem

variable {out : OutputSocket} {ι : Type}

/-- A well-formed packet, of a size that the receiver takes. -/
structure XioPacket (p : List UInt8) : Prop where
  header_le : xioHarvardHeaderSize ≤ p.length
  valid : xhgValidateHeader (p.take xioHarvardHeaderSize) p.length = true
  size_le : p.length ≤ maxSpktLength+1000

namespace XioPacket

/-- Bytes of the first chunk; nothing is done before they are there. -/
theorem first_bounds {p : List UInt8} (hp : XioPacket p) :
    xioHarvardHeaderSize ≤ min maxSpktDataPerSerioPkt p.length := by
  have := hp.header_le
  unfold xioHarvardHeaderSize maxSpktDataPerSerioPkt at *
  omega

/-- In front of anything, the packet is the first one of the stream. -/
theorem firstHeader {p : List UInt8} (hp : XioPacket p) (rest : List UInt8) :
    FirstHeader (p ++ rest) 0 p.length := by
  have hle := hp.header_le
  have hL := xhgValidateHeader_length _ _ hp.valid
  have htake : ((p ++ rest).drop 0).take xioHarvardHeaderSize = p.take xioHarvardHeaderSize := by
    rw [List.drop_zero, List.take_append_of_le_length hle]
  refine ⟨?_, by rw [htake, hL], ?_, ?_, fun _ hj => absurd hj (Nat.not_lt_zero _)⟩
  · rw [List.length_append]
    omega
  · rw [htake, PassesChecks, hL]
    exact ⟨hp.valid, hp.size_le⟩
  · unfold xioHarvardHeaderSize at hle
    omega

end XioPacket

namespace XiomasTcpRcvr

/-- Everything since the start of the connection waits in the buffer. -/
structure Awaiting (r : XiomasTcpRcvr out) (body : List UInt8) : Prop where
  state_ne : r.state ≠ .xtrMidPkt
  packetTrace_eq : r.packetTrace = []
  ibuf_eq : r.ibuf = ⟨body,0⟩

theorem awaiting_new (transmitting : Bool) (sock : out.State) :
    (new transmitting sock : XiomasTcpRcvr out).Awaiting [] := ⟨by simp [new], rfl, rfl⟩

/-- In a stream that starts with packet `p`: either its first chunk is still
incomplete, or the receiver is in the middle of this very packet. -/
def Follows (p : List UInt8) (r : XiomasTcpRcvr out) (body : List UInt8) : Prop :=
  (Awaiting r body ∧ body.length < min maxSpktDataPerSerioPkt p.length) ∨
    ∃ mode, MidPacket r mode p.length body

/-- Waiting for the very first byte means that nothing has been dropped. -/
theorem awaiting_iff_seeking (r : XiomasTcpRcvr out) (body : List UInt8) :
    Awaiting r body ↔ Seeking 0 r body := by
  constructor
  · rintro ⟨hst, htrace, hib⟩
    refine ⟨hst, htrace, ?_, [], ?_, ?_⟩
    · rw [hib]
      exact Nat.zero_le _
    · rw [hib, List.nil_append]
    · rw [hib]
      exact Nat.le_refl _
  · rintro ⟨hst, htrace, -, pre, hsplit, hle⟩
    obtain ⟨hpre, hcp⟩ := Nat.add_eq_zero_iff.mp (Nat.le_zero.mp hle)
    refine ⟨hst, htrace, ?_⟩
    rw [hsplit, List.length_eq_zero_iff.mp hpre, List.nil_append, ← hcp]

/-- One more read of a stream that starts with packet `p`. -/
theorem protocolInput_follows (io : DasIO) (serio : SerioLib) (me : ι) (r : XiomasTcpRcvr out)
    (x : XiomasTcpExport out ι) (p rest body bytes : List UInt8) (hp : XioPacket p)
    (hbody : body ++ bytes <+: p ++ rest) (h : Follows p r body) :
    ∃ s evs, Follows p s (body ++ bytes) ∧ protocolInput io serio me r x bytes =
      (Run.run (exportStep serio) x (exportOps out me evs)).map fun y => (s,y) := by
  rcases h with ⟨haw, -⟩ | ⟨mode, hmid⟩
  · have haccept : acceptBytes p.length = min maxSpktDataPerSerioPkt p.length :=
      Nat.max_eq_right hp.first_bounds
    obtain ⟨s, evs, heq, hcases⟩ := protocolInput_seeking io serio me r x (hp.firstHeader rest)
      hbody ((awaiting_iff_seeking r body).mp haw)
    rw [haccept, Nat.zero_add, List.drop_zero] at hcases
    refine ⟨s, evs, ?_, heq⟩
    rcases hcases with ⟨hshort, hseek, -⟩ | ⟨-, hmid, -⟩
    · exact Or.inl ⟨(awaiting_iff_seeking s _).mpr hseek, hshort⟩
    · exact Or.inr hmid
  · obtain ⟨s, hs, -, -, heq⟩ :=
      protocolInput_midPacket io serio me r x mode p.length body bytes hmid
    exact ⟨s, _, Or.inr ⟨mode, hs⟩, heq⟩

end XiomasTcpRcvr

theorem Kept.follows {r s : XiomasTcpRcvr out} {p body : List UInt8} (h : Kept r s)
    (hr : Follows p r body) : Follows p s body := by
  rcases hr with ⟨haw, hshort⟩ | ⟨mode, hmid⟩
  · refine Or.inl ⟨⟨?_, ?_, ?_⟩, hshort⟩
    · rw [h.state_eq]
      exact haw.state_ne
    · rw [h.packetTrace_eq, haw.packetTrace_eq]
    · rw [h.ibuf_eq, haw.ibuf_eq]
  · exact Or.inr ⟨mode, h.midPacket hmid⟩

/-- An event that is no read of connection `i` leaves its receiver alone. -/
theorem SysCall.kept [DecidableEq ι] {es : List (SysEvent out ι)} {s s' : XioSystem out ι}
    {e : SysEvent out ι} {ops : List (ExportOp out ι)} (h : SysCall es s s' e ops) (i : ι)
    (hnot : ∀ bytes, e ≠ .read i bytes) : Kept (s.rcvr i) (s'.rcvr i) := by
  cases h with
  | read j bytes evs hcall hframe =>
    have hij : i ≠ j := by
      rintro rfl
      exact hnot bytes rfl
    rw [hframe i hij]
    exact .refl _
  | other _ _ hkept => exact hkept i

/-- One event, as long as the input of `me` is the front of a stream that starts
with packet `p`. -/
theorem sysStep_follows (io : DasIO) (serio : SerioLib) [DecidableEq ι] (me : ι)
    (p rest : List UInt8) (hp : XioPacket p) (es : List (SysEvent out ι)) (s s' : XioSystem out ι)
    (e : SysEvent out ι) (ops : List (ExportOp out ι)) (hs : sysStep io serio s e = some s')
    (hcall : SysCall es s s' e ops) (hpre : inputOf me (es ++ [e]) <+: p ++ rest)
    (h : inputOf me es <+: p ++ rest → Follows p (s.rcvr me) (inputOf me es)) :
    Follows p (s'.rcvr me) (inputOf me (es ++ [e])) := by
  have hold := h ((inputOf_append me es e ▸ List.prefix_append _ _).trans hpre)
  by_cases hread : ∃ bytes, e = .read me bytes
  · obtain ⟨bytes, rfl⟩ := hread
    rw [inputOf_read] at hpre ⊢
    obtain ⟨r, evs, hr, heq⟩ :=
      protocolInput_follows io serio me (s.rcvr me) s.exp p rest _ bytes hp hpre hold
    rw [sysStep_read_rcvr io serio heq hs]
    exact hr
  · have hnot : ∀ bytes, e ≠ .read me bytes := fun bytes he => hread ⟨bytes, he⟩
    rw [inputOf_append, bytesOf_eq_nil me e hnot, List.append_nil]
    exact (hcall.kept me hnot).follows hold

/-- The receiver of `me` follows packet `p` as long as its input allows. -/
structure Tracks [DecidableEq ι] (me : ι) (p rest : List UInt8) (es : List (SysEvent out ι))
    (s : XioSystem out ι) : Prop where
  inv : SysInv es s
  follows : inputOf me es <+: p ++ rest → Follows p (s.rcvr me) (inputOf me es)

theorem sysStep_tracks (io : DasIO) (serio : SerioLib) [DecidableEq ι] (me : ι)
    (p rest : List UInt8) (hp : XioPacket p) (es : List (SysEvent out ι)) (s : XioSystem out ι)
    (e : SysEvent out ι) (h : Tracks me p rest es s) :
    ∃ s', sysStep io serio s e = some s' ∧ Tracks me p rest (es ++ [e]) s' := by
  obtain ⟨s', ops, hs, -, hcall, hinv, -⟩ := sysStep_sysInv io serio es s h.inv e
  exact ⟨s', hs, hinv, fun hpre =>
    sysStep_follows io serio me p rest hp es s s' e ops hs hcall hpre h.follows⟩

theorem follows_new {p : List UInt8} (hp : XioPacket p) (transmitting : Bool) (sock : out.State) :
    Follows p (.new transmitting sock) [] := by
  have hfirst := hp.first_bounds
  unfold xioHarvardHeaderSize at hfirst
  refine Or.inl ⟨awaiting_new transmitting sock, ?_⟩
  rw [List.length_nil]
  omega

theorem tracks_started [DecidableEq ι] (me : ι) (p rest : List UInt8) (hp : XioPacket p)
    (s : XioSystem out ι) (hs : s.Started) : Tracks me p rest [] s := by
  refine ⟨sysInv_started s hs, fun _ => ?_⟩
  obtain ⟨transmitting, sock, hi⟩ := hs.fresh me
  rw [hi]
  exact follows_new hp transmitting sock

/-- Whatever else happens in the system, the receiver of a stream that starts
with packet `p` follows this packet. -/
theorem run_tracks (io : DasIO) (serio : SerioLib) [DecidableEq ι] (me : ι) (p rest : List UInt8)
    (hp : XioPacket p) (s : XioSystem out ι) (hs : s.Started) (es : List (SysEvent out ι)) :
    ∃ s', Run.run (sysStep io serio) s es = some s' ∧ Tracks me p rest es s' := by
  have h := Run.run_history (sysStep io serio) (fun _ _ => True) (Tracks me p rest)
    (fun h t e ht _ => sysStep_tracks io serio me p rest hp h t e ht) [] s es
    (tracks_started me p rest hp s hs) (Run.along_true _ s es)
  simpa only [List.nil_append] using h

/-- The events that tell packets apart: log entries and requests to acknowledge. -/
def RcvrEvent.logOrAck : RcvrEvent → Bool
  | logPacket _ _ => true
  | requestAck => true
  | _ => false

/-- The trace of one recovered packet: its first span comes from the header case,
the others continue the current file, and its last is followed by the request. -/
def PacketTrace (p : List UInt8) (evs : List RcvrEvent) : Prop :=
  ∃ mode c cs, mode ≠ .logCurfile ∧ (c :: cs).flatten = p ∧
    evs = logPacket c mode :: (cs.map (logPacket · .logCurfile) ++ [requestAck])

/-- The trace consists of the traces of exactly these packets, in order. -/
def Recovers (ps : List (List UInt8)) (trace : List RcvrEvent) : Prop :=
  ∃ parts, List.Forall₂ PacketTrace ps parts ∧ trace.filter logOrAck = parts.flatten

theorem filter_logOrAck_tailEvents (transmitting : Bool) (remaining : ℕ) (c : List UInt8) :
    (tailEvents transmitting remaining c).filter logOrAck =
      if remaining-c.length = 0 then [requestAck] else [] := by
  unfold tailEvents
  cases transmitting <;> split_ifs <;> rfl

/-- Once the chunks hold the whole packet there is exactly one request, at the end. -/
theorem filter_logOrAck_packetEvents (transmitting : Bool) (mode : LogMode) (remaining : ℕ)
    (c : List UInt8) (cs : List (List UInt8)) (hpos : ∀ d ∈ cs, 0 < d.length)
    (hlen : (c :: cs).flatten.length = remaining) :
    (packetEvents transmitting mode remaining (c :: cs)).filter logOrAck =
      logPacket c mode :: (cs.map (logPacket · .logCurfile) ++ [requestAck]) := by
  induction cs generalizing mode remaining c with
  | nil =>
    have hzero : remaining-c.length = 0 := by
      simp only [List.flatten_cons, List.flatten_nil, List.append_nil] at hlen
      omega
    rw [packetEvents, List.filter_cons_of_pos rfl, List.filter_append, filter_logOrAck_tailEvents,
      if_pos hzero]
    rfl
  | cons d cs ih =>
    have hd := hpos d (by simp)
    rw [List.flatten_cons, List.length_append] at hlen
    have hd' : 0 < (d :: cs).flatten.length := by
      rw [List.flatten_cons, List.length_append]
      omega
    rw [packetEvents, List.filter_cons_of_pos rfl, List.filter_append, filter_logOrAck_tailEvents,
      if_neg (by omega), ih .logCurfile _ d (fun b hb => hpos b (by simp [hb])) (by omega)]
    rfl

theorem filter_logOrAck_packetTrace (r : XiomasTcpRcvr out) :
    r.packetTrace.filter logOrAck = r.trace.filter logOrAck := by
  rw [packetTrace, List.filter_filter]
  congr 1
  funext e
  cases e <;> rfl

/-- A receiver that has all of its packet has recovered that packet and nothing else. -/
theorem recovered_of_midPacket (r : XiomasTcpRcvr out) (mode : LogMode) (p rest : List UInt8)
    (h : MidPacket r mode p.length (p ++ rest)) :
    ∃ evs, r.trace.filter logOrAck = evs ∧ PacketTrace p evs := by
  have htaken := Chunks.taken_of_le_length maxSpktDataPerSerioPkt p.length (p ++ rest) (by decide)
    (by rw [List.length_append]; omega)
  have hflat := Chunks.flatten_cut maxSpktDataPerSerioPkt p.length (p ++ rest)
  rw [htaken, List.take_left] at hflat
  have hmem := Chunks.length_of_mem_cut maxSpktDataPerSerioPkt p.length (p ++ rest)
  rw [← filter_logOrAck_packetTrace, h.packetTrace_eq]
  cases hcut : Chunks.cut maxSpktDataPerSerioPkt p.length (p ++ rest) with
  | nil => exact absurd hcut h.chunks_ne_nil
  | cons c cs =>
    rw [hcut] at hflat hmem
    refine ⟨_, rfl, mode, c, cs, h.mode_ne, hflat, ?_⟩
    refine filter_logOrAck_packetEvents _ _ _ _ _ ?_ (by rw [hflat])
    intro d hd
    exact (hmem d (by simp [hd])).1

theorem count_requestAck_of_packetTrace (p : List UInt8) (evs : List RcvrEvent)
    (h : PacketTrace p evs) : evs.count requestAck = 1 := by
  obtain ⟨mode, c, cs, -, -, rfl⟩ := h
  have hnone : (cs.map (logPacket · .logCurfile)).count requestAck = 0 := by
    apply List.count_eq_zero.mpr
    simp
  rw [List.count_cons_of_ne (by simp), List.count_append, hnone]
  rfl

/-- Every recovered packet has its own request. -/
theorem count_requestAck_of_recovers (ps : List (List UInt8)) (trace : List RcvrEvent)
    (h : Recovers ps trace) : (trace.filter logOrAck).count requestAck = ps.length := by
  obtain ⟨parts, hall, heq⟩ := h
  rw [heq]
  clear heq
  induction hall with
  | nil => rfl
  | cons hp _ ih =>
    rw [List.flatten_cons, List.count_append, ih, count_requestAck_of_packetTrace _ _ hp,
      List.length_cons, Nat.add_comm]

/-- Once its stream is over, a receiver has recovered the first packet of it. -/
theorem recovers_iff_of_tracks [DecidableEq ι] (me : ι) (p : List UInt8)
    (ps : List (List UInt8)) (es : List (SysEvent out ι)) (s : XioSystem out ι)
    (h : Tracks me p ps.flatten es s) (hin : inputOf me es = (p :: ps).flatten) :
    Recovers (p :: ps) (s.rcvr me).trace ↔ ps = [] := by
  rw [List.flatten_cons] at hin
  have hfol := h.follows ⟨[], by rw [hin, List.append_nil]⟩
  rw [hin] at hfol
  have hmid : ∃ mode, MidPacket (s.rcvr me) mode p.length (p ++ ps.flatten) := by
    rcases hfol with ⟨-, hshort⟩ | hmid
    · rw [List.length_append] at hshort
      omega
    · exact hmid
  obtain ⟨mode, hmid⟩ := hmid
  obtain ⟨evs, hevs, htr⟩ := recovered_of_midPacket (s.rcvr me) mode p ps.flatten hmid
  constructor
  · intro hrec
    have hcount := count_requestAck_of_recovers _ _ hrec
    rw [hevs, count_requestAck_of_packetTrace p evs htr, List.length_cons] at hcount
    exact List.length_eq_zero_iff.mp (by omega)
  · rintro rfl
    exact ⟨[evs], List.forall₂_cons.mpr ⟨htr, .nil⟩, by rw [hevs]; simp⟩

theorem xioPacket_barePacket : XioPacket barePacket := ⟨by decide, by decide, by decide⟩

/-- A receiver recovers every packet of a stream if and only if there is at most
one: nothing leads from mid-packet back to the header case. -/
theorem tcp_stream_recovered_iff (io : DasIO) (serio : SerioLib) [DecidableEq ι] (me : ι)
    (ps : List (List UInt8)) (hps : ∀ p ∈ ps, XioPacket p) (s : XioSystem out ι) (hs : s.Started)
    (es : List (SysEvent out ι)) (hin : inputOf me es = ps.flatten) :
    ∃ s', Run.run (sysStep io serio) s es = some s' ∧
      (Recovers ps (s'.rcvr me).trace ↔ ps.length ≤ 1) := by
  cases ps with
  | nil =>
    obtain ⟨s', hr, ht⟩ := run_tracks io serio me barePacket [] xioPacket_barePacket s hs es
    have hfol := ht.follows (by rw [hin]; exact List.nil_prefix)
    rw [hin, List.flatten_nil] at hfol
    have hnil : (s'.rcvr me).packetTrace = [] := by
      rcases hfol with ⟨haw, -⟩ | ⟨mode, hmid⟩
      · exact haw.packetTrace_eq
      · exact absurd hmid.header_le (by decide)
    refine ⟨s', hr, iff_of_true ⟨[], .nil, ?_⟩ (by simp)⟩
    rw [← filter_logOrAck_packetTrace, hnil]
    rfl
  | cons p ps =>
    have hp := hps p (by simp)
    obtain ⟨s', hr, ht⟩ := run_tracks io serio me p ps.flatten hp s hs es
    refine ⟨s', hr, (recovers_iff_of_tracks me p ps es s' ht hin).trans ?_⟩
    rw [List.length_cons, ← List.length_eq_zero_iff]
    omega

theorem tcp_stream_recovered_one : ∃ s' : XioSystem .direct Unit,
    Run.run (sysStep DasIO.keeping SerioLib.packed)
      (.new (fun _ => false) (fun _ => ()) (fun _ => 0) ()) [.read () barePacket] = some s' ∧
    Recovers [barePacket] (s'.rcvr ()).trace := by
  obtain ⟨s', hr, hiff⟩ := tcp_stream_recovered_iff DasIO.keeping SerioLib.packed () [barePacket]
    (by simpa using xioPacket_barePacket)
    (.new (fun _ => false) (fun _ => ()) (fun _ => 0) () : XioSystem .direct Unit)
    (started_new _ _ _ _) [.read () barePacket] (by simp [inputOf, bytesOf])
  exact ⟨s', hr, hiff.mpr (Nat.le_refl 1)⟩

/-- Two packets in one read: the second one is swallowed. -/
theorem tcp_stream_second_lost : ∃ s' : XioSystem .direct Unit,
    Run.run (sysStep DasIO.keeping SerioLib.packed)
      (.new (fun _ => false) (fun _ => ()) (fun _ => 0) ())
      [.read () (barePacket ++ barePacket)] = some s' ∧
    ¬Recovers [barePacket, barePacket] (s'.rcvr ()).trace := by
  obtain ⟨s', hr, ht⟩ := run_tracks DasIO.keeping SerioLib.packed () barePacket
    [barePacket].flatten xioPacket_barePacket
    (.new (fun _ => false) (fun _ => ()) (fun _ => 0) () : XioSystem .direct Unit)
    (started_new _ _ _ _) [.read () (barePacket ++ barePacket)]
  refine ⟨s', hr, fun hrec => ?_⟩
  have hnil := (recovers_iff_of_tracks () barePacket [barePacket] _ s' ht
    (by simp [inputOf, bytesOf])).mp hrec
  cases hnil

end Cosmid.Xiomas
