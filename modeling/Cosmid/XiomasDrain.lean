import Cosmid.XiomasHandshake

/-! How the circular buffer of `xiomas_tcp_export` empties: which acknowledgements start the
transmission again, and when the receiver that waits for it is let go. -/
namespace Cosmid.Xiomas.XiomasTcpExport

variable {out : OutputSocket} {ι : Type}

/-- An ACK after which less than 2000 bytes are outstanding, with nothing left in `obuf`. -/
def Grants (x : XiomasTcpExport out ι) : ExportOp out ι → Prop
  | .ack length => x.outstandingBytes < 2000+length ∧ out.obufEmpty x.sock = true
  | _ => False

instance (x : XiomasTcpExport out ι) (op : ExportOp out ι) : Decidable (x.Grants op) := by
  cases op <;> unfold Grants <;> infer_instance

def grants (x : XiomasTcpExport out ι) (op : ExportOp out ι) : ℕ := if x.Grants op then 1 else 0

/-- What comes from tm_ip_export and the connection to it. -/
def FromPeer : ExportOp out ι → Prop
  | .ack _ => True
  | .socket _ => True
  | _ => False

/-- What is left of the queue of `x` in `y`, once the transmission has been started `n` times. -/
structure Draining (x : XiomasTcpExport out ι) (n : ℕ) (y : XiomasTcpExport out ι) : Prop where
  valid : y.CircValid
  iwrites : x.iwrites <+: y.iwrites
  stream_eq : y.stream = x.stream
  length_le : y.circLength ≤ x.circLength-(maxSpktDataPerSerioPkt+SerioLib.pktHdrSize)*n
  waiting : (y.client = x.client ∧ y.acks = x.acks) ∨
    (y.client = none ∧ y.circLength = 0 ∧ y.acks = x.acks ++ x.client.toList)
  let_go : 0 < n → x.circLength ≤ (maxSpktDataPerSerioPkt+SerioLib.pktHdrSize)*n → y.client = none

theorem ackClient_acks (x : XiomasTcpExport out ι) :
    x.ackClient.acks = x.acks ++ x.client.toList := by
  unfold ackClient
  split
  · rename_i c hc
    rw [hc]
    rfl
  · rename_i hc
    rw [hc, Option.toList_none, List.append_nil]

/-- The waiting receiver is acknowledged by the loop that empties the queue. -/
theorem processQueue_acks (x y : XiomasTcpExport out ι) (hv : x.CircValid)
    (hy : x.processQueue = some y) :
    y.acks = x.acks ++ if y.circLength = 0 then x.client.toList else [] := by
  revert hy
  refine processQueue_induction ?_ ?_ x hv
  · intro x hv hsend hy
    rw [processQueue, dif_neg hsend] at hy
    obtain rfl := Option.some.inj hy
    by_cases hl : x.circLength = 0
    · have hlen : x.ackClient.circLength = x.circLength := by
        rw [ackClient_eq]
        rfl
      rw [if_pos hl, hlen, if_pos hl, ackClient_acks]
    · rw [if_neg hl, if_neg hl, List.append_nil]
  · intro x z hv _ _ _ ht _ hq ih hy
    have hacks : z.acks = x.acks := by rw [ht.frame]
    have hclient : z.client = x.client := by rw [ht.frame]
    rw [← hacks, ← hclient]
    exact ih (hq ▸ hy)

/-- One batch at least goes out if the loop may send. -/
theorem processQueue_length_le (x y : XiomasTcpExport out ι) (hv : x.CircValid)
    (hy : x.processQueue = some y) (hcts : x.cts = true) :
    y.circLength ≤ x.circLength-(maxSpktDataPerSerioPkt+SerioLib.pktHdrSize) := by
  by_cases hpos : 0 < x.circLength
  · -- The first batch is a full one or all there is; those behind it only add to it.
    obtain ⟨z, -, ht, -, hq⟩ := x.processQueue_batch hv hcts hpos
    obtain ⟨n, y', hy', hd⟩ := z.processQueue_spec ht.valid
    obtain rfl := Option.some.inj ((hq.symm.trans hy).symm.trans hy')
    have hz := ht.length_eq
    have hn := hd.length_eq
    unfold batchBytes at hz
    split at hz <;> omega
  · obtain ⟨n, y', hy', hd⟩ := x.processQueue_spec hv
    obtain rfl := Option.some.inj (hy.symm.trans hy')
    have hn := hd.length_eq
    omega

/-- An operation of the peer takes the draining a step further, or leaves it where it is. -/
theorem exportStep_draining (serio : SerioLib) (x y : XiomasTcpExport out ι) (n : ℕ)
    (h : Draining x n y) (op : ExportOp out ι) (hop : FromPeer op) :
    ∃ z, exportStep serio y op = some z ∧ Draining x (n+y.grants op) z := by
  have hsize : maxSpktDataPerSerioPkt+SerioLib.pktHdrSize = 962 := rfl
  have hle := h.length_le
  rw [hsize] at hle
  cases op with
  | forward bfr => exact absurd hop id
  | requestAck client => exact absurd hop id
  | socket sock =>
    have hno : y.grants (.socket sock) = 0 := if_neg id
    rw [hno, Nat.add_zero]
    exact ⟨_, rfl, ⟨h.valid.size_lt, h.valid.tail_lt, h.valid.head_cases, h.valid.outstanding_lt⟩,
      h.iwrites, h.stream_eq, h.length_le, h.waiting, h.let_go⟩
  | ack length =>
    -- The credit is given first, and the loop runs in the state with it.
    set w : XiomasTcpExport out ι := {y with outstandingBytes :=
      if length > y.outstandingBytes then 0 else y.outstandingBytes-length} with hw
    have hwv : w.CircValid := h.valid.credit length
    obtain ⟨k, z, hz, hd⟩ := w.processQueue_spec hwv
    have hlen : z.circLength+k = y.circLength := hd.length_eq
    have hstream : z.stream = y.stream := hd.stream_eq
    have hacks : z.acks = y.acks ++ if z.circLength = 0 then y.client.toList else [] :=
      w.processQueue_acks z hwv hz
    have hclient : z.client = if z.circLength = 0 then none else y.client := hd.client_eq
    have hgrant : y.Grants (.ack length) → z.circLength ≤ y.circLength-962 := by
      rintro ⟨hcredit, hempty⟩
      refine w.processQueue_length_le z hwv hz ?_
      rw [cts, Bool.and_eq_true, decide_eq_true_eq]
      refine ⟨?_, hempty⟩
      have hout : w.outstandingBytes =
        if length > y.outstandingBytes then 0 else y.outstandingBytes-length := rfl
      rw [hout]
      split <;> omega
    have hdown : z.circLength ≤ x.circLength-962*(n+y.grants (.ack length)) := by
      by_cases hg : y.Grants (.ack length)
      · rw [grants, if_pos hg]
        calc z.circLength ≤ y.circLength-962 := hgrant hg
          _ ≤ x.circLength-962*n-962 := Nat.sub_le_sub_right hle 962
          _ = x.circLength-962*(n+1) := by rw [Nat.sub_sub, Nat.mul_succ]
      · rw [grants, if_neg hg, Nat.add_zero]
        exact Nat.le_trans (Nat.le.intro hlen) hle
    refine ⟨z, hz, hd.valid, ?_, hstream.trans h.stream_eq, ?_, ?_, ?_⟩
    · obtain ⟨spans, hspans, -⟩ := hd.spans
      have hmore : y.iwrites <+: z.iwrites := ⟨spans, hspans.symm⟩
      exact h.iwrites.trans hmore
    · rw [hsize]
      exact hdown
    · -- The queue is empty now, or the receiver waits on.
      by_cases hzero : z.circLength = 0
      · rw [if_pos hzero] at hacks hclient
        refine Or.inr ⟨hclient, hzero, ?_⟩
        rcases h.waiting with ⟨hc, ha⟩ | ⟨hc, -, ha⟩
        · rw [hacks, ha, hc]
        · rw [hacks, hc, Option.toList_none, List.append_nil, ha]
      · rw [if_neg hzero] at hacks hclient
        rw [List.append_nil] at hacks
        rcases h.waiting with ⟨hc, ha⟩ | ⟨-, hl, -⟩
        · exact Or.inl ⟨hclient.trans hc, hacks.trans ha⟩
        · omega
    · intro _ hall
      rw [hsize] at hall
      rw [hclient, if_pos (by omega)]

/-- No stall: from whatever state the exporter has got to, the ACKs that give credit while
`obuf` is empty send 962 bytes each, until all there was in the queue has been written, in order
and behind what was written before; and the receiver that waits for it is let go then,
once and not before. -/
theorem image_link_drains (serio : SerioLib) (circ : ℕ → UInt8) (sock : out.State)
    (ops : List (ExportOp out ι)) (x : XiomasTcpExport out ι)
    (hx : Run.run (exportStep serio) (.new circ sock) ops = some x)
    (es : List (ExportOp out ι)) (hes : ∀ op ∈ es, FromPeer op) :
    Run.Throughout (exportStep serio) (fun fs y =>
      Draining x (Run.total (exportStep serio) grants x fs) y) x es := by
  obtain ⟨x', hx', hv, -⟩ := exportRun_valid serio (.new circ sock) (circValid_new circ sock) ops
  obtain rfl := Option.some.inj (hx.symm.trans hx')
  have hfirst : Draining x 0 x :=
    ⟨hv, List.prefix_rfl, rfl, Nat.le_refl _, Or.inl ⟨rfl, rfl⟩, fun h => absurd h (by decide)⟩
  intro fs hfs
  obtain ⟨y, hy, hd, -⟩ := Run.run_history (exportStep serio) (fun _ op => FromPeer op)
    (fun h y => Draining x (Run.total (exportStep serio) grants x h) y ∧
      Run.run (exportStep serio) x h = some y)
    (fun h y op hi hop => by
      obtain ⟨hd, hrun⟩ := hi
      obtain ⟨z, hz, hdz⟩ := exportStep_draining serio x y _ hd op hop
      refine ⟨z, hz, ?_, (Run.run_concat _ hrun op).trans hz⟩
      rw [Run.total_concat _ _ hrun]
      exact hdz) [] x fs ⟨hfirst, rfl⟩
    (Run.along_of_mem _ _ _ fun op hop _ => hes op (hfs.subset hop))
  exact ⟨y, hy, hd⟩

/-- Where nothing stays in `obuf`, every ACK for a full serio packet gives credit. -/
theorem total_grants (serio : SerioLib) (n : ℕ) (x : XiomasTcpExport .direct Unit)
    (hv : x.CircValid) (hwin : x.outstandingBytes < 2962) :
    Run.total (exportStep serio) grants x (List.replicate n (.ack 962)) = n := by
  induction n generalizing x with
  | zero => rfl
  | succ n ih =>
    have hgrant : x.grants (.ack 962) = 1 := if_pos ⟨by omega, rfl⟩
    obtain ⟨m, y, hy, hd⟩ := x.appInputAck_spec hv 962
    have hstep : exportStep serio x (.ack 962) = some y := hy
    have hout := hd.outstanding_eq
    dsimp only at hout
    have hnext : y.outstandingBytes < 2962 := by
      rcases hd.window with rfl | hlt
      · split at hout <;> omega
      · exact hlt
    rw [List.replicate_succ, Run.total, hgrant, hstep, Option.elim_some, ih y hd.valid hnext,
      Nat.add_comm]

/-- Five full packets, and a receiver that waits for them. -/
def queueRun : List (ExportOp .direct Unit) :=
  List.replicate 5 (.forward (List.replicate 956 0)) ++ [.requestAck ()]

/-- They do not go out at once, and an ACK for each of them gets all of them out. -/
theorem image_link_drains_queue : ∃ x y : XiomasTcpExport .direct Unit,
    Run.run (exportStep SerioLib.packed) (.new (fun _ => 0) ()) queueRun = some x ∧
    962 < x.circLength ∧
    Run.run (exportStep SerioLib.packed) x (List.replicate 5 (.ack 962)) = some y ∧
    Draining x 5 y ∧ y.circLength = 0 ∧ y.client = none := by
  let x0 : XiomasTcpExport .direct Unit := .new (fun _ => 0) ()
  have hv0 : x0.CircValid := circValid_new _ _
  have hnil : x0.contents = [] := contents_new _ _
  have hempty : x0.circLength = 0 := by rw [← length_contents, hnil, List.length_nil]
  -- The stream has all five packets, and less than four of them have been written.
  have hlen : (frames SerioLib.packed ([] ++ forwarded queueRun)).length = 4810 := by
    have hchunks : forwarded queueRun = List.replicate 5 (List.replicate 956 0) := rfl
    rw [List.nil_append, length_frames, hchunks, List.length_flatten, List.map_replicate,
      List.length_replicate, List.length_replicate, List.sum_replicate_nat]
    rfl
  obtain ⟨x, hx, hfill⟩ := exportRun_filling SerioLib.packed [] [] x0 queueRun
    ⟨hv0, rfl, congrArg (_ ++ ·) hnil, Or.inl hempty⟩ (by rw [hlen]; decide)
  obtain ⟨x', hx', howed⟩ := Run.run_invariant (exportStep SerioLib.packed)
    (fun _ op => op ∈ queueRun) (Owed (fun _ => 0) 0) (by
      intro y op hy hop
      rcases List.mem_append.mp hop with hop | hop
      · obtain rfl := List.eq_of_mem_replicate hop
        obtain ⟨z, hz, hzo, -⟩ := forwardPacket_owed PeerSystem.accounted_direct SerioLib.packed y hy _
        exact ⟨z, hz, hzo⟩
      · obtain rfl := List.mem_singleton.mp hop
        exact ⟨_, rfl, requestAck_owed y hy ()⟩)
    x0 queueRun ⟨hv0, rfl, Nat.le_refl 0, Nat.succ_pos _⟩
    (Run.along_of_mem _ _ _ fun op hop _ => hop)
  obtain rfl := Option.some.inj (hx.symm.trans hx')
  have hall : x.iwrites.flatten.length+x.circLength = 4810 := by
    have hstream := congrArg List.length hfill.stream_eq
    rw [List.nil_append, hlen, stream, List.length_append, length_contents] at hstream
    exact hstream
  have hledger := howed.ledger
  have hwin := howed.window
  have hpeer : ∀ op ∈ List.replicate 5 (.ack 962 : ExportOp .direct Unit), FromPeer op := by
    intro op hop
    obtain rfl := List.eq_of_mem_replicate hop
    trivial
  obtain ⟨y, hy, hd⟩ := image_link_drains SerioLib.packed _ _ _ x hx _ hpeer _ List.prefix_rfl
  rw [total_grants SerioLib.packed 5 x howed.valid hwin] at hd
  have hle := hd.length_le
  have hsize : maxSpktDataPerSerioPkt+SerioLib.pktHdrSize = 962 := rfl
  rw [hsize] at hle
  refine ⟨x, y, hx, by omega, hy, hd, by omega, hd.let_go (by decide) ?_⟩
  rw [hsize]
  omega

end Cosmid.Xiomas.XiomasTcpExport
