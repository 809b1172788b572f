import Cosmid.PopsRecord

/-! Sequences of datagrams for `UserPkts_UDP::protocol_input`: which of them leave
bytes behind for the next one. -/
namespace Cosmid.Pops

variable {F D : Type}

/-- A parser that only moves `cp`, within the buffer. One that fails may have
dropped the whole buffer. -/
def Advances {α : Type} (p : Parse α) : Prop :=
  ∀ b : InputBuffer, b.cp ≤ b.nc →
    ((p b).2.buf = b.buf ∧ (p b).2.cp ≤ b.nc) ∨ ((p b).1 = none ∧ (p b).2 = InputBuffer.empty)

theorem advances_pure {α : Type} (a : α) : Advances (pure a) := fun _ hb => Or.inl ⟨rfl, hb⟩

/-- What follows a parser runs from where it has stopped, if it has not failed. -/
theorem bind_apply {α β : Type} (p : Parse α) (f : α → Parse β) (b : InputBuffer) :
    (p >>= f) b = (fun r : Option α × InputBuffer =>
      (match r.1 with | some a => f a | none => fun s => (none, s) : Parse β) r.2) (p b) := rfl

theorem advances_bind {α β : Type} {p : Parse α} {f : α → Parse β} (hp : Advances p)
    (hf : ∀ a, Advances (f a)) : Advances (p >>= f) := by
  intro b hb
  have hstep := hp b hb
  cases hpb : p b with
  | mk o b' =>
    rw [hpb] at hstep
    cases o with
    | none =>
      have hrun : (p >>= f) b = (none, b') := by rw [bind_apply, hpb]
      rw [hrun]
      exact hstep.imp id fun h => ⟨rfl, h.2⟩
    | some a =>
      have hrun : (p >>= f) b = f a b' := by rw [bind_apply, hpb]
      rcases hstep with ⟨hbuf, hcp⟩ | ⟨hnone, -⟩
      · dsimp only at hbuf hcp
        have hnc : b'.nc = b.nc := congrArg List.length hbuf
        have hrest := hf a b' (by omega)
        rw [hbuf, hnc] at hrest
        rw [hrun]
        exact hrest
      · cases hnone

namespace FieldLib

/-- The field parsers of the library. -/
structure Sound (lib : FieldLib F D) : Prop where
  notStr : ∀ str, Advances (lib.notStr str)
  notFound : ∀ c, Advances (lib.notFound c)
  notNdigits : ∀ n, Advances (lib.notNdigits n)
  notUint8 : Advances lib.notUint8
  notUint16 : Advances lib.notUint16
  notUint32 : Advances lib.notUint32
  notInt32 : Advances lib.notInt32
  notNfloat : Advances lib.notNfloat

theorem Sound.comma {lib : FieldLib F D} (h : lib.Sound) {α : Type} {field : Parse α}
    (hfield : Advances field) : Advances (lib.comma field) :=
  advances_bind hfield fun a => advances_bind (h.notStr _) fun _ => advances_pure a

/-- The whole parser, field by field. -/
theorem Sound.parse {lib : FieldLib F D} (h : lib.Sound) : Advances lib.parse := by
  have hnum (n : ℕ) := h.comma (h.notNdigits n)
  have hu8 := h.comma h.notUint8
  have hu16 := h.comma h.notUint16
  have hu32 := h.comma h.notUint32
  have hi32 := h.comma h.notInt32
  have hfloat := h.comma h.notNfloat
  unfold FieldLib.parse
  repeat
    refine advances_bind (by first
      | exact hfloat | exact hu32 | exact hi32 | exact hu8 | exact hu16 | exact hnum _
      | exact h.notStr _ | exact h.notFound _ | exact h.notNdigits _ | exact h.notUint32) fun _ => ?_
  exact advances_pure _

/-- The datagram is one record, and its date is a time. -/
def Complete (lib : FieldLib F D) (datagram : List UInt8) : Prop :=
  ∃ r, (lib.parse ⟨datagram,0⟩).1 = some r ∧ lib.mktime r.buft ≠ -1

/-- The parser fails on the datagram because there is no more of it, and keeps it. -/
def RunsOut (lib : FieldLib F D) (datagram : List UInt8) : Prop :=
  (lib.parse ⟨datagram,0⟩).1 = none ∧
    ¬(lib.parse ⟨datagram,0⟩).2.cp < (lib.parse ⟨datagram,0⟩).2.nc ∧
    (lib.parse ⟨datagram,0⟩).2.buf ≠ []

end FieldLib

namespace UserPktsUDP

/-- The datagrams one after the other. -/
def receive (io : DasIO) (lib : FieldLib F D) (u : UserPktsUDP F D)
    (datagrams : List (List UInt8)) : UserPktsUDP F D :=
  datagrams.foldl (fun u d => u.protocolInput io lib d) u

/-- Every datagram is parsed alone, and behind a complete record the telemetry is
what this record makes of the telemetry from before all of them. -/
def Undisturbed (io : DasIO) (lib : FieldLib F D) (u : UserPktsUDP F D)
    (datagrams : List (List UInt8)) : Prop :=
  ∀ pre d post, datagrams = pre ++ d :: post →
    (u.receive io lib pre).received io d = ⟨d,0⟩ ∧
    (lib.Complete d →
      (u.receive io lib (pre ++ [d])).pops = (u.protocolInput io lib d).pops)

theorem receive_concat (io : DasIO) (lib : FieldLib F D) (u : UserPktsUDP F D)
    (pre : List (List UInt8)) (d : List UInt8) :
    u.receive io lib (pre ++ [d]) = (u.receive io lib pre).protocolInput io lib d := by
  rw [receive, List.foldl_append]
  rfl

theorem received_eq (io : DasIO) (u : UserPktsUDP F D) (d : List UInt8) :
    u.received io d = ⟨u.ibuf.buf ++ d,0⟩ := rfl

/-- What a datagram leaves behind, if it finds nothing in the buffer. -/
theorem protocolInput_buf (io : DasIO) {lib : FieldLib F D} (hlib : lib.Sound)
    (u : UserPktsUDP F D) (hu : u.ibuf.buf = []) (d : List UInt8) :
    (lib.RunsOut d → (u.protocolInput io lib d).ibuf.buf = d) ∧
    (¬lib.RunsOut d → (u.protocolInput io lib d).ibuf.buf = []) := by
  have hparse := hlib.parse ⟨d,0⟩ (Nat.zero_le _)
  unfold protocolInput FieldLib.RunsOut
  rw [received_eq, hu, List.nil_append]
  cases hp : lib.parse ⟨d,0⟩ with
  | mk o b =>
    rw [hp] at hparse
    cases o with
    | none =>
      dsimp only
      split_ifs with hlt
      · refine ⟨fun h => absurd hlt h.2.1, fun _ => ?_⟩
        rw [io.consume_buf]
        exact List.drop_length
      · refine ⟨fun h => ?_, fun h => ?_⟩
        · rcases hparse with ⟨hbuf, -⟩ | ⟨-, hempty⟩
          · exact hbuf
          · exact absurd (congrArg InputBuffer.buf hempty) h.2.2
        · by_contra hne
          exact h ⟨rfl, hlt, hne⟩
    | some r =>
      refine ⟨fun h => ?_, fun _ => ?_⟩
      · cases h.1
      · dsimp only
        rw [io.reportOk_buf]
        exact List.drop_length

/-- The values that no datagram changes. -/
theorem receive_kept (io : DasIO) (lib : FieldLib F D) (u : UserPktsUDP F D)
    (datagrams : List (List UInt8)) :
    (u.receive io lib datagrams).pops.laserCurrent = u.pops.laserCurrent ∧
    (u.receive io lib datagrams).pops.flowSet = u.pops.flowSet ∧
    (u.receive io lib datagrams).pops.srvr = u.pops.srvr := by
  induction datagrams generalizing u with
  | nil => exact ⟨rfl, rfl, rfl⟩
  | cons d ds ih =>
    obtain ⟨h1, h2, h3⟩ := ih (u.protocolInput io lib d)
    have hone : (u.protocolInput io lib d).pops.laserCurrent = u.pops.laserCurrent ∧
        (u.protocolInput io lib d).pops.flowSet = u.pops.flowSet ∧
        (u.protocolInput io lib d).pops.srvr = u.pops.srvr := by
      rw [protocolInput_pops]
      split <;> exact ⟨rfl, rfl, rfl⟩
    exact ⟨h1.trans hone.1, h2.trans hone.2.1, h3.trans hone.2.2⟩

/-- A complete record that is parsed alone decides the telemetry. -/
theorem protocolInput_complete (io : DasIO) (lib : FieldLib F D) (u v : UserPktsUDP F D)
    (d : List UInt8) (hu : u.ibuf.buf = []) (hv : v.ibuf.buf = [])
    (hkept : u.pops.laserCurrent = v.pops.laserCurrent ∧ u.pops.flowSet = v.pops.flowSet ∧
      u.pops.srvr = v.pops.srvr) (hd : lib.Complete d) :
    (u.protocolInput io lib d).pops = (v.protocolInput io lib d).pops := by
  obtain ⟨r, hr, htime⟩ := hd
  obtain ⟨hlaser, hflow, hsrvr⟩ := hkept
  rw [protocolInput_pops, protocolInput_pops, received_eq, received_eq, hu, hv, List.nil_append, hr]
  dsimp only
  rw [Record.timeAfter, Record.timeAfter, if_neg htime, if_neg htime, hlaser, hflow]
  simp only [Record.fill, hsrvr]

/-- Behind a datagram that runs out, a datagram is parsed with it. -/
theorem receive_lost (io : DasIO) {lib : FieldLib F D} (hlib : lib.Sound) (u : UserPktsUDP F D)
    (hu : u.ibuf.buf = []) (cut d : List UInt8) (hcut : lib.RunsOut cut)
    (hboth : (lib.parse ⟨cut ++ d,0⟩).1 = none) :
    (u.receive io lib [cut, d]).pops = u.pops := by
  have hbuf := (protocolInput_buf io hlib u hu cut).1 hcut
  have hfirst : (u.protocolInput io lib cut).pops = u.pops := by
    rw [protocolInput_pops, received_eq, hu, List.nil_append, hcut.1]
  change ((u.protocolInput io lib cut).protocolInput io lib d).pops = u.pops
  rw [protocolInput_pops, received_eq, hbuf, hboth]
  exact hfirst

/-- Datagrams that do not run out leave nothing behind. -/
theorem receive_buf (io : DasIO) {lib : FieldLib F D} (hlib : lib.Sound) (u : UserPktsUDP F D)
    (hu : u.ibuf.buf = []) (datagrams : List (List UInt8))
    (h : ∀ d ∈ datagrams, ¬lib.RunsOut d) : (u.receive io lib datagrams).ibuf.buf = [] := by
  induction datagrams generalizing u with
  | nil => exact hu
  | cons d ds ih =>
    have hd := (protocolInput_buf io hlib u hu d).2 (h d List.mem_cons_self)
    exact ih _ hd fun e he => h e (List.mem_cons_of_mem d he)

/-- Datagrams do not disturb each other if and only if only the last one ends in
the middle of a record. -/
theorem undisturbed_iff (io : DasIO) (lib : FieldLib F D) (hlib : lib.Sound)
    (u : UserPktsUDP F D) (hu : u.ibuf = InputBuffer.empty) (datagrams : List (List UInt8)) :
    u.Undisturbed io lib datagrams ↔ ∀ d ∈ datagrams.dropLast, ¬lib.RunsOut d := by
  have hbuf : u.ibuf.buf = [] := by rw [hu]; rfl
  constructor
  · intro h d hd hout
    obtain ⟨pre, mid, hsplit⟩ := List.append_of_mem hd
    have hne : datagrams ≠ [] := by
      rintro rfl
      cases hd
    -- The datagram behind the one that runs out is parsed with it.
    have hlast := List.dropLast_concat_getLast hne
    rw [hsplit] at hlast
    obtain ⟨e, post, hpost⟩ : ∃ e post, mid ++ [datagrams.getLast hne] = e :: post :=
      List.exists_cons_of_ne_nil (by simp)
    have hds : datagrams = (pre ++ [d]) ++ e :: post := by
      rw [← hlast, ← hpost]
      simp
    obtain ⟨hfst, -⟩ := h pre d (e :: post) (by rw [hds]; simp)
    obtain ⟨hsnd, -⟩ := h (pre ++ [d]) e post hds
    have hempty : (u.receive io lib pre).ibuf.buf = [] := by
      rw [received_eq] at hfst
      exact List.append_left_eq_self.mp (congrArg InputBuffer.buf hfst)
    rw [received_eq, receive_concat, (protocolInput_buf io hlib _ hempty d).1 hout] at hsnd
    have hnil : d = [] := List.append_left_eq_self.mp (congrArg InputBuffer.buf hsnd)
    subst hnil
    rcases hlib.parse ⟨[],0⟩ (Nat.le_refl _) with ⟨hb, -⟩ | ⟨-, hb⟩
    · exact hout.2.2 hb
    · exact hout.2.2 (congrArg InputBuffer.buf hb)
  · intro h pre d post hds
    have hpre : ∀ e ∈ pre, ¬lib.RunsOut e := by
      intro e he
      apply h e
      rw [hds, List.dropLast_append_of_ne_nil (List.cons_ne_nil d post)]
      exact List.mem_append_left _ he
    have hempty := receive_buf io hlib u hbuf pre hpre
    refine ⟨by rw [received_eq, hempty, List.nil_append], fun hd => ?_⟩
    rw [receive_concat]
    exact protocolInput_complete io lib _ u d hempty hbuf (receive_kept io lib u pre) hd

end UserPktsUDP

namespace FieldLib

theorem advances_decimalField {α : Type} (conv : ℕ → α) : Advances (decimalField conv) := by
  intro b hb
  left
  have hlen := b.length_unread
  have hdigits : (digits b).length ≤ b.unread.length :=
    (List.takeWhile_sublist _).length_le
  unfold decimalField
  split_ifs
  · exact ⟨rfl, hb⟩
  · refine ⟨rfl, ?_⟩
    dsimp only
    omega

theorem decimal_sound : decimal.Sound where
  notStr str b hb := by
    left
    have hlen := b.length_unread
    simp only [decimal]
    split_ifs with hstr
    · have hle := (List.isPrefixOf_iff_prefix.mp hstr).length_le
      exact ⟨rfl, by dsimp only; omega⟩
    · exact ⟨rfl, hb⟩
  notFound c b hb := by
    left
    have hlen := b.length_unread
    simp only [decimal]
    split_ifs with hc
    · have hlt := List.idxOf_lt_length_of_mem hc
      exact ⟨rfl, by dsimp only; omega⟩
    · exact ⟨rfl, hb⟩
  notNdigits n b hb := by
    left
    have hlen := b.length_unread
    have hdigits : (digits b).length ≤ b.unread.length :=
      (List.takeWhile_sublist _).length_le
    simp only [decimal]
    split_ifs
    · exact ⟨rfl, hb⟩
    · exact ⟨rfl, by dsimp only; omega⟩
  notUint8 := advances_decimalField _
  notUint16 := advances_decimalField _
  notUint32 := advances_decimalField _
  notInt32 := advances_decimalField _
  notNfloat := advances_decimalField _

end FieldLib

namespace UserPktsUDP

theorem undisturbed_single : (⟨InputBuffer.empty,default,0⟩ : UserPktsUDP ℤ ℤ).Undisturbed
    DasIO.keeping FieldLib.decimal [[0x58], onesRecord] := by
  rw [undisturbed_iff DasIO.keeping FieldLib.decimal FieldLib.decimal_sound _ rfl]
  intro d hd hout
  obtain rfl := List.mem_singleton.mp hd
  exact absurd (by decide : (FieldLib.decimal.parse ⟨[0x58],0⟩).2.cp <
    (FieldLib.decimal.parse ⟨[0x58],0⟩).2.nc) hout.2.1

/-- A record that ends behind its date, then a whole record: it is lost. -/
theorem record_lost : FieldLib.decimal.Complete onesRecord ∧
    ((⟨InputBuffer.empty,default,0⟩ : UserPktsUDP ℤ ℤ).receive DasIO.keeping FieldLib.decimal
      [onesRecord.take 25, onesRecord]).pops ≠
    ((⟨InputBuffer.empty,default,0⟩ : UserPktsUDP ℤ ℤ).protocolInput DasIO.keeping
      FieldLib.decimal onesRecord).pops := by
  have hparse : ((FieldLib.decimal.parse ⟨onesRecord,0⟩).1.map
      fun r => (r.partNum, decide (FieldLib.decimal.mktime r.buft = -1))) = some (1, false) := by
    decide +kernel
  obtain ⟨r, hr, hvalues⟩ := Option.map_eq_some_iff.mp hparse
  obtain ⟨hpart, htime⟩ := Prod.mk.inj hvalues
  refine ⟨⟨r, hr, of_decide_eq_false htime⟩, fun heq => ?_⟩
  have hcut : FieldLib.decimal.RunsOut (onesRecord.take 25) := by
    refine ⟨?_, ?_, ?_⟩
    · exact Option.isNone_iff_eq_none.mp (by decide +kernel)
    · decide +kernel
    · decide +kernel
  have hboth : (FieldLib.decimal.parse ⟨onesRecord.take 25 ++ onesRecord,0⟩).1 = none :=
    Option.isNone_iff_eq_none.mp (by decide +kernel)
  rw [receive_lost DasIO.keeping FieldLib.decimal_sound _ rfl _ _ hcut hboth, protocolInput_pops]
    at heq
  have hstart : (⟨InputBuffer.empty,default,0⟩ : UserPktsUDP ℤ ℤ).received DasIO.keeping onesRecord =
      ⟨onesRecord,0⟩ := by
    rw [received_eq]
    exact congrArg (fun d => (⟨d,0⟩ : InputBuffer)) (List.nil_append onesRecord)
  rw [hstart, hr] at heq
  have hzero : (default : Telemetry ℤ ℤ).partNum = r.partNum := congrArg Telemetry.partNum heq
  rw [hpart] at hzero
  exact absurd hzero (by decide)

end UserPktsUDP
end Cosmid.Pops
