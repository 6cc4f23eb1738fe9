import MediaChain.Plugin.Scripted
import MediaChain.Proofs.Stage.Seek

/-!
# Scripted plugins that feed and relay

A description that is `Steady` makes only requests that do not reach the stage in front, and no read
of it fails. Then `feed` reads feed its data, and `relay` reads relay, as many bytes at a time as
its limit lets through. If it seeks as it reads, the data can be sought in (`Steady.serves`,
`Steady.refers`).
-/

namespace MediaChain.Scripted

open Std

/-! ## Requests of a description -/

/-- A request that does not reach the stage in front. -/
def Call.IsLocal : Call → Prop
  | read _ | peek _ | seek _ _ | readLine => False
  | _ => True

theorem copyOutType_ends :
    (Script.copyOutType : Act Bool).Ends Request.IsLocal fun _ => True := by
  refine .ask trivial fun view => ?_
  rw [Script.bind]
  -- the second request is made only if there is a stage in front
  cases view.inTypes.head? with
  | none => exact .done trivial
  | some type => exact .ask trivial fun _ => .done trivial

theorem recordBytes_ends (key : String) (bs : Bytes) :
    (Script.recordBytes key bs : Act Bool).Ends Request.IsLocal fun _ => True := by
  unfold Script.recordBytes
  cases Utf8.decode? bs with
  | none => exact .done trivial
  | some s => exact .ask trivial fun _ => .done trivial

theorem Call.perform_ends {c : Call} (hc : c.IsLocal) :
    c.perform.Ends Request.IsLocal fun _ => True := by
  have note : ∀ o : Outcome, (Script.request (.note (.call c o)) : Act Unit).Ends Request.IsLocal
      fun _ => True := fun o => .ask trivial fun _ => .done trivial
  suffices hask : c.ask.Ends Request.IsLocal fun _ => True from hask.bind fun o _ => note o
  cases c with
  | read size => exact hc.elim
  | peek size => exact hc.elim
  | seek offset whence => exact hc.elim
  | readLine => exact hc.elim
  | copyOut => exact copyOutType_ends.bind fun _ _ => .done trivial
  | recordBytes key bs => exact (recordBytes_ends key bs).bind fun _ _ => .done trivial
  | _ => exact .ask trivial fun _ => .done trivial

theorem performAll_ends {cs : List Call} (h : ∀ c ∈ cs, c.IsLocal) :
    (performAll cs).Ends Request.IsLocal fun _ => True := by
  induction cs with
  | nil => exact .done trivial
  | cons c cs ih =>
    exact (Call.perform_ends (h c List.mem_cons_self)).bind fun _ _ =>
      ih fun c' hc' => h c' (List.mem_cons_of_mem _ hc')

/-! ## Steady descriptions -/

/-- A description by which no request reaches the stage in front, apart from the one that produces
bytes, and no read fails. -/
structure Steady (p : Scripted) : Prop where
  init : ∀ c : Call, c ∈ p.initCalls → c.IsLocal
  read : ∀ c : Call, c ∈ p.readCalls → c.IsLocal
  single : ∀ n : Nat, ∀ c : Call, c ∈ p.callsAt[n]?.getD [] → c.IsLocal
  fail : ∀ n : Nat, p.failAt[n]? = none
  excess : ∀ n : Nat, p.overAt[n]? = none
  limit : p.perCall ≠ some 0

namespace Steady

variable {p : Scripted}

theorem begins (hp : p.Steady) {P : State → Prop} (h : P ⟨0, 0⟩) : p.plugin.Begins P := by
  refine (performAll_ends hp.init).bind fun _ _ => ?_
  cases p.initError with
  | none => exact .done fun state hstate => Except.ok.inj hstate ▸ h
  | some e => exact .done fun state hstate => by simp at hstate

/-- The window that a read produces into. -/
theorem limit_pos (hp : p.Steady) {window : Window} (hw : 0 < window.size) :
    0 < (window.take (p.perCall.getD window.size)).size := by
  rw [Window.size_take]
  cases hlimit : p.perCall with
  | none => exact Nat.lt_min.mpr ⟨hw, hw⟩
  | some limit =>
    refine Nat.lt_min.mpr ⟨Nat.pos_of_ne_zero fun h0 => hp.limit ?_, hw⟩
    rw [hlimit]
    exact congrArg some h0

theorem read_eq (hp : p.Steady) (s : State) (window : Window) :
    p.read s window = (performAll p.readCalls >>= fun _ =>
      performAll (p.callsAt[s.calls + 1]?.getD []) >>= fun _ =>
        p.produce { s with calls := s.calls + 1 } (window.take (p.perCall.getD window.size))) := by
  unfold Scripted.read
  simp only [hp.fail, hp.excess]

/-- A read of the description's own data takes the bytes at its position. -/
theorem read_feed (hp : p.Steady) (hmode : p.mode = .feed) (s : State) {window : Window}
    (hw : 0 < window.size) :
    (p.read s window).Ends Request.IsLocal fun r => ∃ reply, r.1 = .ok reply ∧
      reply.Takes window (p.data.drop s.position) ∧ r.2.position = s.position + reply.count := by
  rw [hp.read_eq]
  refine (performAll_ends hp.read).bind fun _ _ =>
    (performAll_ends (hp.single _)).bind fun _ _ => ?_
  have hpos := hp.limit_pos hw
  have hle : (window.take (p.perCall.getD window.size)).size ≤ window.size := Nat.min_le_right _ _
  unfold Scripted.produce
  rw [hmode]
  refine .done ⟨_, rfl, ⟨?_, ?_, fun h0 => .inr ?_⟩, rfl⟩
  · exact Nat.le_trans (List.length_take_le _ _) hle
  · rw [Reply.bytes_ofBytes _ (Nat.le_trans (List.length_take_le _ _) hle)]
    show _ = (p.data.drop s.position).take ((p.data.drop s.position).take _).length
    rw [List.length_take]
    exact List.take_eq_take_min
  · have h0 : ((p.data.drop s.position).take _).length = 0 := h0
    rw [List.length_take] at h0
    exact List.length_eq_zero_iff.mp (by omega)

theorem feeds (hp : p.Steady) (hmode : p.mode = .feed) :
    p.plugin.Feeds fun s rest => p.data.drop s.position = rest := by
  rintro s _ rfl window hw
  refine (hp.read_feed hmode s hw).mono ?_
  rintro r ⟨reply, hreply, htakes, hposition⟩
  refine ⟨reply, hreply, htakes, ?_⟩
  show p.data.drop r.2.position = _
  rw [hposition, List.drop_drop]

theorem relays (hp : p.Steady) {mask : UInt8} (hmode : p.mode = .relay mask) :
    p.plugin.Relays mask fun _ => True := by
  rintro s - window hw
  show (p.read s window).Passes _ _
  rw [hp.read_eq]
  refine .of_ends_bind (performAll_ends hp.read) fun _ _ =>
    .of_ends_bind (performAll_ends (hp.single _)) fun _ _ => ?_
  have hpos := hp.limit_pos hw
  have hle : (window.take (p.perCall.getD window.size)).size ≤ window.size := Nat.min_le_right _ _
  unfold Scripted.produce
  rw [hmode]
  refine .read hpos hle fun reply => .done fun hcount => ⟨_, rfl, rfl, ?_, trivial⟩
  have hlen : ((reply.bytes (window.take (p.perCall.getD window.size))).map (· ^^^ mask)).length =
      reply.count := by
    rw [List.length_map, Reply.length_bytes]
  rw [(masked mask _ reply).bytes_eq_take (Nat.le_trans hcount hle)]
  · exact List.take_left' hlen
  · unfold masked
    rw [List.length_append, hlen]
    exact Nat.le_add_right _ _

/-- Seeking in the description's own data asks for nothing in front either. -/
theorem serves (hp : p.Steady) (hmode : p.mode = .feed) (hseek : p.seekMode = .feed)
    (hcalls : ∀ c ∈ p.seekCalls, c.IsLocal) (hseeks : p.descriptor.capabilities.seek = true) :
    p.plugin.Serves p.data fun s position =>
      s.position = position ∧ position ≤ p.data.length := by
  refine ⟨fun h => h.2, ?_, hseeks, ?_⟩
  · rintro s _ ⟨_, ⟨rfl, hle⟩, rfl⟩ window hw
    refine (hp.read_feed hmode s hw).mono ?_
    rintro r ⟨reply, hreply, htakes, hposition⟩
    have hcount := htakes.count_le
    rw [List.length_drop] at hcount
    refine ⟨reply, hreply, htakes, _, ⟨hposition, by omega⟩, ?_⟩
    rw [List.drop_drop]
  · rintro s _ ⟨rfl, -⟩ offset whence
    show (p.seek s offset whence).Ends _ _
    have htarget : p.target s offset whence =
        seekTarget p.data.length s.position offset whence := by cases whence <;> rfl
    unfold Scripted.seek
    rw [hseek]
    refine (performAll_ends hcalls).bind fun _ _ => ?_
    dsimp only
    rw [htarget]
    generalize seekTarget p.data.length s.position offset whence = target
    by_cases hin : 0 ≤ target ∧ target ≤ p.data.length
    · have hin' : InData p.data.length target := hin
      simp only [if_pos hin, if_pos hin']
      refine .done ⟨rfl, rfl, ?_⟩
      show target.toNat ≤ p.data.length
      omega
    · have hout' : ¬InData p.data.length target := hin
      simp only [if_neg hin, if_neg hout']
      exact .done ⟨_, rfl⟩

theorem refers (hseek : p.seekMode = .forward) (hcalls : ∀ c ∈ p.seekCalls, c.IsLocal)
    (hseeks : p.descriptor.capabilities.seek = true) : p.plugin.Refers fun _ => True := by
  refine ⟨hseeks, ?_⟩
  intro s _ offset whence
  show (p.seek s offset whence).Forwards _ _
  unfold Scripted.seek
  rw [hseek]
  refine .of_ends_bind (performAll_ends hcalls) fun _ _ => .forward fun answer => ?_
  cases answer with
  | ok position => exact .done ⟨rfl, trivial⟩
  | error e => exact .done ⟨_, rfl⟩

end Steady

/-! ## A steady description -/

/-- A description that marks what each read produces, two bytes at a time. -/
def paced (mode : ReadMode) (data : Bytes) : Scripted where
  descriptor := { name := "paced", inputs := [⟨.untyped, 1⟩] }
  initCalls := [.setOut .untyped]
  initError := none
  data := data
  mode := mode
  perCall := some 2
  readCalls := [.mark "pace" (.bytes data), .barrier]
  callsAt := ∅
  failAt := ∅
  overAt := ∅
  seekCalls := []
  seekMode := .missing
  items := none

theorem paced_steady (mode : ReadMode) (data : Bytes) : (paced mode data).Steady where
  init c hc := by
    rw [List.mem_singleton.mp hc]
    exact trivial
  read c hc := by
    rcases List.mem_cons.mp hc with rfl | hc
    · exact trivial
    · rw [List.mem_singleton.mp hc]
      exact trivial
  single n c hc := by
    rw [paced, ExtTreeMap.getElem?_empty] at hc
    exact absurd hc List.not_mem_nil
  fail n := ExtTreeMap.getElem?_empty
  excess n := ExtTreeMap.getElem?_empty
  limit := fun h => by cases h

/-- A description that also seeks, and marks where it did. -/
def winding (mode : ReadMode) (seekMode : SeekMode) (data : Bytes) : Scripted :=
  { paced mode data with
    descriptor := { (paced mode data).descriptor with capabilities := { seek := true } }
    seekCalls := [.mark "wind" (.bytes data)]
    seekMode }

theorem winding_steady (mode : ReadMode) (seekMode : SeekMode) (data : Bytes) :
    (winding mode seekMode data).Steady :=
  let h := paced_steady mode data
  ⟨h.init, h.read, h.single, h.fail, h.excess, h.limit⟩

theorem winding_seekCalls {mode : ReadMode} {seekMode : SeekMode} {data : Bytes} :
    ∀ c ∈ (winding mode seekMode data).seekCalls, c.IsLocal := by
  intro c hc
  rw [List.mem_singleton.mp hc]
  exact trivial

end MediaChain.Scripted
