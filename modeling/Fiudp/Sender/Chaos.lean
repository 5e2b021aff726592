import Fiudp.Sender.Stream

/-!
# The chaos stage

What the three filters do to the prepared packets, draw by draw, and how the packets
they leave are paced.  Neither the settings nor the draws can make an index leave its
range.
-/

namespace Fiudp.Sender

open ByteLayout Protocol Interaction

variable {target : Target}

/-! ## One rule for each stage -/

/-- The `count` packets from `start` on, or as many as there are, between what stands
before and after them; the end index is computed without overflow. -/
structure Window (target : Target) (count : ℕ) (ready : List Packet) (start : ℕ)
    (before window after : List Packet) : Prop where
  split : ready = before ++ window ++ after
  start_eq : before.length = start
  width : window.length = min ready.length count
  no_overflow : start + count ≤ target.usizeMax
  end_eq : min ready.length (start + count) = before.length + window.length

/-- The burst step removes one window of the packets, from a drawn index on. -/
inductive BurstStep (count : ℕ) (ready : List Packet) :
    Trace Call (Reply target) → List Packet → Prop
  | off : count = 0 → BurstStep count ready [] ready
  | removed (before window after : List Packet) (start : Fin (ready.length - count + 1)) :
      0 < count → Window target count ready start.val before window after →
        BurstStep count ready [⟨.genRangeTo (ready.length - count), start⟩] (before ++ after)

/-- The drop step makes one draw for each packet. -/
inductive DropStep (threshold : ℕ) (items : List Packet) :
    Trace Call (Reply target) → List Packet → Prop
  | off : threshold = 0 → DropStep threshold items [] items
  | drawn (draws : List (Fin 100)) :
      0 < threshold → draws.length = items.length →
        DropStep threshold items (draws.map fun draw => ⟨.genPercent, draw⟩)
          (keptByDraws threshold items draws)

inductive ShuffleStep (chaosShuffle : Bool) (items : List Packet) :
    Trace Call (Reply target) → List Packet → Prop
  | off : chaosShuffle = false → ShuffleStep chaosShuffle items [] items
  | shuffled (out : {out : List Packet // out.Perm items}) :
      chaosShuffle = true → ShuffleStep chaosShuffle items [⟨.shuffle items, out⟩] out.val

def sendEvent (packet : Packet) : Event Call (Reply target) := ⟨.sendPacket packet, .ok ()⟩

def sleepEvent (delay : Duration) : Event Call (Reply target) := ⟨.sleep delay, ()⟩

/-- The transmission loop: all packets, with a pause between any two, or the packets up
to one that the transport refuses. -/
inductive SendLoop (delay : Duration) (final : List Packet) :
    Trace Call (Reply target) → Result Unit → Prop
  | completed :
      SendLoop delay final ((final.map sendEvent).intersperse (sleepEvent delay)) (.ok ())
  | refused (sent : ℕ) (packet : Packet) (error : FiudpError) :
      final[sent]? = some packet →
        SendLoop delay final
          ((final.take sent).flatMap (fun packet => [sendEvent packet, sleepEvent delay]) ++
            [⟨.sendPacket packet, .error error⟩])
          (.error (.error error))

/-- An index at which as many items as wanted are left, or as many as there are, splits
the list around the window. -/
theorem exists_window {α : Type} (items : List α) {start count : ℕ}
    (hstart : start ≤ items.length - count) :
    ∃ before window after, items = before ++ window ++ after ∧ before.length = start ∧
      window.length = min items.length count ∧
      withoutWindow items start count = before ++ after := by
  set stop := min items.length (start + count) with hstop
  refine ⟨items.take start, (items.drop start).take (stop - start), items.drop stop, ?_, ?_, ?_,
    rfl⟩
  · have hafter : items.drop stop = (items.drop start).drop (stop - start) := by
      rw [List.drop_drop]
      congr 1
      omega
    rw [hafter, List.append_assoc, List.take_append_drop, List.take_append_drop]
  · exact List.length_take_of_le (by omega)
  · rw [List.length_take, List.length_drop]
    omega

theorem burstStep_of_returns (chaosBurst : UInt32) {ready : List Packet} (hready : ready ≠ [])
    (hlength : ready.length ≤ target.isizeMax)
    {trace : Trace Call (Reply target)} {result : Result (List Packet)}
    (hreturns : Returns (burstStage chaosBurst ready).run trace result) :
    ∃ remaining, result = .ok remaining ∧ BurstStep chaosBurst.toNat ready trace remaining := by
  obtain ⟨start, hstart, rfl, ⟨rfl, hzero | hempty⟩ | ⟨hburst, draw, rfl, rfl⟩⟩ :=
    returns_burstStage _ _ hlength hreturns
  · refine ⟨ready, ?_, .off hzero⟩
    rw [hzero, withoutWindow_zero (by omega)]
  · exact absurd hempty hready
  · obtain ⟨before, window, after, hsplit, hbefore, hwidth, hkept⟩ := exists_window ready hstart
    have hburstLt := chaosBurst.toNat_lt
    have husize := target.usizeMax_eq
    have hisize := target.isizeMax_eq
    rw [hkept]
    refine ⟨_, rfl, .removed before window after draw hburst ⟨hsplit, hbefore, hwidth, ?_, ?_⟩⟩
    · omega
    · omega

theorem dropStep_of_returns (chaosDrop : UInt8) (items : List Packet)
    {trace : Trace Call (Reply target)} {result : Result (List Packet)}
    (hreturns : Returns (dropStage chaosDrop items).run trace result) :
    ∃ survivors, result = .ok survivors ∧
      DropStep chaosDrop.toNat items trace survivors := by
  by_cases hdrop : chaosDrop.toNat > 0
  · rw [dropStage, if_pos hdrop] at hreturns
    obtain ⟨draws, hdraws, rfl, rfl⟩ := returns_retainByDraw chaosDrop items hreturns
    exact ⟨_, rfl, .drawn draws hdrop hdraws⟩
  · rw [dropStage, if_neg hdrop] at hreturns
    obtain ⟨rfl, rfl⟩ := (returns_done_iff _ _ _).mp hreturns
    exact ⟨_, rfl, .off (Nat.eq_zero_of_not_pos hdrop)⟩

theorem shuffleStep_of_returns (chaosShuffle : Bool) (items : List Packet)
    {trace : Trace Call (Reply target)} {result : Result (List Packet)}
    (hreturns : Returns (shuffleStage chaosShuffle items).run trace result) :
    ∃ final, result = .ok final ∧ ShuffleStep chaosShuffle items trace final := by
  rcases returns_shuffleStage _ _ hreturns with ⟨hoff, rfl, rfl⟩ | ⟨hon, reply, rfl, rfl⟩
  · exact ⟨_, rfl, .off hoff⟩
  · exact ⟨_, rfl, .shuffled reply hon⟩

/-! ## Pacing -/

theorem sendEvents_eq_intersperse (delay : Duration) (packetCount index : ℕ)
    (packets : List Packet) (hcount : index + packets.length = packetCount) :
    (sendEvents delay packetCount index packets : Trace Call (Reply target)) =
      (packets.map sendEvent).intersperse (sleepEvent delay) := by
  induction packets generalizing index with
  | nil => rfl
  | cons packet packets ih =>
      rw [List.length_cons] at hcount
      rw [sendEvents, ih (index + 1) (by omega)]
      cases packets with
      | nil => rw [if_neg (by simp at hcount; omega)]; rfl
      | cons next packets =>
          rw [if_pos (by simp at hcount; omega)]
          rfl

/-- Packets that are not the last ones are each followed by a pause. -/
theorem sendEvents_eq_flatMap (delay : Duration) (packetCount index : ℕ)
    (packets : List Packet) (hcount : index + packets.length < packetCount) :
    (sendEvents delay packetCount index packets : Trace Call (Reply target)) =
      packets.flatMap fun packet => [sendEvent packet, sleepEvent delay] := by
  induction packets generalizing index with
  | nil => rfl
  | cons packet packets ih =>
      rw [List.length_cons] at hcount
      rw [sendEvents, ih (index + 1) (by omega), if_pos (by omega)]
      rfl

theorem sendLoop_of_returns (delay : Duration) (final : List Packet)
    {trace : Trace Call (Reply target)} {result : Result Unit}
    (hreturns : Returns (transmit delay final.length 0 final).run trace result) :
    SendLoop delay final trace result := by
  rcases returns_transmit _ _ _ _ hreturns with ⟨rfl, rfl⟩ |
    ⟨sent, packet, error, hpacket, rfl, rfl⟩
  · rw [sendEvents_eq_intersperse delay final.length 0 final (Nat.zero_add _)]
    exact .completed
  · obtain ⟨hsent, -⟩ := List.getElem?_eq_some_iff.mp hpacket
    rw [sendEvents_eq_flatMap delay final.length 0 _ (by simp; omega)]
    exact .refused sent packet error hpacket

/-! ## What the steps leave -/

section Steps

variable {count threshold : ℕ} {items remaining : List Packet} {trace : Trace Call (Reply target)}

theorem BurstStep.sublist (hstep : BurstStep count items trace remaining) :
    remaining.Sublist items := by
  cases hstep with
  | off => exact .refl _
  | removed before window after start _ hwindow =>
      rw [hwindow.split, List.append_assoc]
      exact (List.sublist_append_right window after).append_left before

theorem DropStep.sublist (hstep : DropStep threshold items trace remaining) :
    remaining.Sublist items := by
  cases hstep with
  | off => exact .refl _
  | drawn draws _ hlength => exact keptByDraws_sublist _ _ _ hlength

theorem DropStep.eq_of_zero (hstep : DropStep 0 items trace remaining) :
    trace = [] ∧ remaining = items := by
  cases hstep with
  | off => exact ⟨rfl, rfl⟩
  | drawn _ hpositive => exact absurd hpositive (lt_irrefl 0)

/-- A threshold above every draw keeps nothing. -/
theorem DropStep.eq_nil (hthreshold : 100 ≤ threshold)
    (hstep : DropStep threshold items trace remaining) : remaining = [] := by
  cases hstep with
  | off hzero => omega
  | drawn draws =>
      have hnone (pair : Packet × Fin 100) : ¬ threshold ≤ pair.2.val := by
        have hdraw := pair.2.isLt
        omega
      simp [keptByDraws, hnone]

theorem ShuffleStep.perm {chaosShuffle : Bool}
    (hstep : ShuffleStep chaosShuffle items trace remaining) : remaining.Perm items := by
  cases hstep with
  | off => exact .refl _
  | shuffled out => exact out.property

theorem ShuffleStep.eq_of_off (hstep : ShuffleStep false items trace remaining) :
    trace = [] ∧ remaining = items := by
  cases hstep with
  | off => exact ⟨rfl, rfl⟩
  | shuffled _ hon => cases hon

end Steps

/-! ## The packets of a session -/

/-- The shard index in the header of a packet. -/
def headerIndex (packet : Packet) : ℕ := (Header.read packet.toList).shardIndex.raw.toNat

/-- The header of the packet has this index and the full counts of its session. -/
structure Announces (dataShards parityShards index : ℕ) (packet : Packet) : Prop where
  shardIndex_eq : headerIndex packet = index
  dataShards_eq : (Header.read packet.toList).dataShards.raw.toNat = dataShards
  parityShards_eq : (Header.read packet.toList).parityShards.raw.toNat = parityShards

/-- What is left of a session: some of its packets, unaltered, none of them twice, and
in shard order unless they are shuffled. -/
structure KeptPackets (dataShards parityShards : ℕ) (chaosShuffle : Bool)
    (packets final : List Packet) : Prop where
  announces : ∀ packet ∈ final, ∃ index < dataShards + parityShards,
    packets[index]? = some packet ∧ Announces dataShards parityShards index packet
  nodup : final.Nodup
  ordered : chaosShuffle = false →
    final.Pairwise fun packet later => headerIndex packet < headerIndex later

section Session

variable {ratio : ParityRatio} {frame : ByteVec target} {fec : Trace Call (Reply target)}
  {slices : List Slice} {encrypted : List Sealed}

theorem Prepared.announces (hprepared : Prepared ratio frame fec slices encrypted)
    (rendezvousSecs : RendezvousSecs) (sessionId : SessionId) {index : ℕ} {packet : Packet}
    (hpacket : (sessionPackets ratio rendezvousSecs sessionId frame.val encrypted)[index]? =
      some packet) :
    index < dataCount frame.val + parityCount ratio frame.val ∧
      Announces (dataCount frame.val) (parityCount ratio frame.val) index packet := by
  obtain ⟨hindex, -⟩ := List.getElem?_eq_some_iff.mp hpacket
  rw [length_sessionPackets, hprepared.length_eq, hprepared.fecLeaves.length_eq] at hindex
  obtain ⟨plaintext, encryption, other, -, -, hother, hcarries⟩ :=
    hprepared.carriesShard rendezvousSecs sessionId hindex
  cases hpacket.symm.trans hother
  exact ⟨hindex, hcarries.shardIndex_eq, hcarries.dataShards_eq, hcarries.parityShards_eq⟩

theorem Prepared.pairwise_headerIndex (hprepared : Prepared ratio frame fec slices encrypted)
    (rendezvousSecs : RendezvousSecs) (sessionId : SessionId) :
    (sessionPackets ratio rendezvousSecs sessionId frame.val encrypted).Pairwise
      fun packet later => headerIndex packet < headerIndex later := by
  rw [List.pairwise_iff_getElem]
  intro first second hfirst hsecond hlt
  obtain ⟨-, hleft⟩ := hprepared.announces rendezvousSecs sessionId
    (List.getElem?_eq_getElem hfirst)
  obtain ⟨-, hright⟩ := hprepared.announces rendezvousSecs sessionId
    (List.getElem?_eq_getElem hsecond)
  rwa [hleft.shardIndex_eq, hright.shardIndex_eq]

/-- A rearranged part of a session. -/
theorem Prepared.keptPackets (hprepared : Prepared ratio frame fec slices encrypted)
    (rendezvousSecs : RendezvousSecs) (sessionId : SessionId) {chaosShuffle : Bool}
    {survivors final : List Packet}
    (hsublist : survivors.Sublist
      (sessionPackets ratio rendezvousSecs sessionId frame.val encrypted))
    (hperm : final.Perm survivors) (hoff : chaosShuffle = false → final = survivors) :
    KeptPackets (dataCount frame.val) (parityCount ratio frame.val) chaosShuffle
      (sessionPackets ratio rendezvousSecs sessionId frame.val encrypted) final := by
  have hordered := (hprepared.pairwise_headerIndex rendezvousSecs sessionId).sublist hsublist
  constructor
  case announces =>
    intro packet hpacket
    obtain ⟨index, hindex⟩ := List.mem_iff_getElem?.mp (hsublist.subset (hperm.subset hpacket))
    obtain ⟨hlt, hannounces⟩ := hprepared.announces rendezvousSecs sessionId hindex
    exact ⟨index, hlt, hindex, hannounces⟩
  case nodup =>
    rw [hperm.nodup_iff]
    refine hordered.imp fun {packet later} hlt => ?_
    rintro rfl
    exact lt_irrefl _ hlt
  case ordered =>
    intro hshuffle
    rwa [hoff hshuffle]

end Session

/-! ## The whole stage -/

/-- The transport accepts every packet. -/
def Transports : Event Call (Reply target) → Prop
  | ⟨.sendPacket _, reply⟩ => reply = .ok ()
  | _ => True

/-- A run of the chaos stage and the transmission loop over `ready`: `remaining` is what
the burst step leaves, `survivors` what the drop step leaves of that, and `final` is
handed to the transport. -/
structure ChaosRun (sender : FiudpSender) (ready remaining survivors final : List Packet)
    (trace : Trace Call (Reply target)) (result : Result Unit) : Prop where
  steps : ∃ burst drop shuffled sends, trace = burst ++ (drop ++ (shuffled ++ sends)) ∧
    BurstStep sender.chaosBurst.toNat ready burst remaining ∧
    DropStep sender.chaosDrop.toNat remaining drop survivors ∧
    ShuffleStep sender.chaosShuffle survivors shuffled final ∧
    SendLoop sender.delay final sends result ∧
    ((∀ event ∈ trace, Transports event) → result = .ok () ∧
      sends = (final.map sendEvent).intersperse (sleepEvent sender.delay))
  drops_none : sender.chaosDrop.toNat = 0 → survivors = remaining
  drops_all : 100 ≤ sender.chaosDrop.toNat → survivors = []
  survivors_sublist : survivors.Sublist ready
  final_perm : final.Perm survivors
  final_eq : sender.chaosShuffle = false → final = survivors
  no_panic : ∀ panic, result ≠ .error (.panic panic)
  session : ∀ {ratio : ParityRatio} {rendezvousSecs : RendezvousSecs} {sessionId : SessionId}
    {frame : ByteVec target} {fec : Trace Call (Reply target)} {slices : List Slice}
    {encrypted : List Sealed}, Prepared ratio frame fec slices encrypted →
    ready = sessionPackets ratio rendezvousSecs sessionId frame.val encrypted →
      KeptPackets (dataCount frame.val) (parityCount ratio frame.val) sender.chaosShuffle
        ready final

theorem SendLoop.no_panic {delay : Duration} {final : List Packet}
    {trace : Trace Call (Reply target)} {result : Result Unit}
    (hloop : SendLoop delay final trace result) (panic : Panic) :
    result ≠ .error (.panic panic) := by
  cases hloop with
  | completed => simp
  | refused => simp

/-- A transport that never fails gets all packets, with one pause between any two. -/
theorem SendLoop.eq_of_transports {delay : Duration} {final : List Packet}
    {trace : Trace Call (Reply target)} {result : Result Unit}
    (hloop : SendLoop delay final trace result)
    (htransports : ∀ event ∈ trace, Transports event) :
    result = .ok () ∧ trace = (final.map sendEvent).intersperse (sleepEvent delay) := by
  cases hloop with
  | completed => exact ⟨rfl, rfl⟩
  | refused sent packet error =>
      have hrefused := htransports _ (List.mem_append_right _ List.mem_cons_self)
      cases hrefused

/-- The filters never fail: each of them makes its step. -/
theorem chaos_steps {self : FiudpSender} {ready : List Packet} (hready : ready ≠ [])
    (hlength : ready.length ≤ target.isizeMax)
    {trace : Trace Call (Reply target)} {result : Result (List Packet)}
    (hreturns : Returns (self.chaos ready).run trace result) :
    ∃ burst drop shuffled remaining survivors final, trace = burst ++ (drop ++ shuffled) ∧
      result = .ok final ∧ BurstStep self.chaosBurst.toNat ready burst remaining ∧
      DropStep self.chaosDrop.toNat remaining drop survivors ∧
      ShuffleStep self.chaosShuffle survivors shuffled final := by
  rw [FiudpSender.chaos] at hreturns
  obtain ⟨failure, -, hburst⟩ | ⟨burst, rest, remaining, rfl, hburst, hrest⟩ :=
    (returns_try_iff _ _ _ _).mp hreturns
  · obtain ⟨kept, hok, hstep⟩ := burstStep_of_returns _ hready hlength hburst
    cases hok
  obtain ⟨kept, ⟨⟩, hburst⟩ := burstStep_of_returns _ hready hlength hburst
  obtain ⟨failure, -, hdrop⟩ | ⟨drop, shuffled, survivors, rfl, hdrop, hshuffle⟩ :=
    (returns_try_iff _ _ _ _).mp hrest
  · obtain ⟨kept, hok, hstep⟩ := dropStep_of_returns _ _ hdrop
    cases hok
  obtain ⟨kept, ⟨⟩, hdrop⟩ := dropStep_of_returns _ _ hdrop
  obtain ⟨final, hok, hfinal⟩ := shuffleStep_of_returns _ _ hshuffle
  exact ⟨burst, drop, shuffled, remaining, survivors, final, rfl, hok, hburst, hdrop, hfinal⟩

/-- The chaos stage only removes and reorders packets, by the stated amounts, and never
panics. -/
theorem chaos_run {self : FiudpSender} {ready : List Packet} (hready : ready ≠ [])
    (hlength : ready.length ≤ target.isizeMax)
    {trace : Trace Call (Reply target)} {result : Result Unit}
    (hreturns : Returns (do
      let final ← self.chaos ready
      transmit self.delay final.length 0 final : Pipeline target Unit).run trace result) :
    ∃ remaining survivors final, ChaosRun self ready remaining survivors final trace result := by
  obtain ⟨failure, -, hchaos⟩ | ⟨draws, sends, final, rfl, hchaos, hsends⟩ :=
    (returns_try_iff _ _ _ _).mp hreturns
  · obtain ⟨burst, drop, shuffled, remaining, survivors, final, htrace, hok, hsteps⟩ :=
      chaos_steps hready hlength hchaos
    cases hok
  obtain ⟨burst, drop, shuffled, remaining, survivors, final, rfl, ⟨⟩, hburst, hdrop, hshuffle⟩ :=
    chaos_steps hready hlength hchaos
  have hloop := sendLoop_of_returns _ _ hsends
  have hsublist := hdrop.sublist.trans hburst.sublist
  have hoff : self.chaosShuffle = false → final = survivors := by
    intro hfalse
    rw [hfalse] at hshuffle
    exact hshuffle.eq_of_off.2
  refine ⟨remaining, survivors, final, ?_⟩
  constructor
  case steps =>
    refine ⟨burst, drop, shuffled, sends, by simp only [List.append_assoc], hburst, hdrop,
      hshuffle, hloop, ?_⟩
    intro htransports
    exact hloop.eq_of_transports (List.forall_mem_append.mp htransports).2
  case drops_none =>
    intro hzero
    rw [hzero] at hdrop
    exact hdrop.eq_of_zero.2
  case drops_all => exact fun hall => hdrop.eq_nil hall
  case survivors_sublist => exact hsublist
  case final_perm => exact hshuffle.perm
  case final_eq => exact hoff
  case no_panic => exact hloop.no_panic
  case session =>
    rintro ratio rendezvousSecs sessionId frame fec slices encrypted hprepared rfl
    exact hprepared.keptPackets rendezvousSecs sessionId hsublist hshuffle.perm hoff

/-- A sender with all three filters on. -/
def chaosSender : FiudpSender := ⟨⟨500⟩, 50, 1, true⟩

/-- Draws that keep every packet and turn the list around, with a transport that accepts
everything. -/
def chaosReply : (call : Call) → Reply Target.release64 call
  | .genPercent => Fin.last 99
  | .shuffle packets => ⟨packets.reverse, packets.reverse_perm⟩
  | call => (Components.accepting sampleFrame id).reply call

def samplePacket (mark : UInt8) : Packet :=
  ⟨List.replicate packetSize mark, List.length_replicate⟩

/-- Three packets under `chaosSender`. -/
def chaosSample : Execution Call (Reply Target.release64) (Result Unit) Unit :=
  Program.execute (fun state call => (chaosReply call, state)) ()
    (do
      let final ← chaosSender.chaos [samplePacket 0, samplePacket 1, samplePacket 2]
      transmit chaosSender.delay final.length 0 final : Pipeline Target.release64 Unit).run

/-- The burst takes the first packet; the other two are sent in turned order. -/
theorem chaos_run_sample :
    chaosSample.trace =
      [⟨.genRangeTo 2, (0 : Fin 3)⟩, ⟨.genPercent, (99 : Fin 100)⟩, ⟨.genPercent, (99 : Fin 100)⟩,
        ⟨.shuffle [samplePacket 1, samplePacket 2],
          ⟨[samplePacket 2, samplePacket 1], .swap _ _ _⟩⟩,
        ⟨.sendPacket (samplePacket 2), .ok ()⟩, ⟨.sleep ⟨500⟩, ()⟩,
        ⟨.sendPacket (samplePacket 1), .ok ()⟩] ∧
      ∃ remaining survivors final,
        ChaosRun chaosSender [samplePacket 0, samplePacket 1, samplePacket 2] remaining survivors
          final chaosSample.trace chaosSample.value :=
  ⟨rfl, chaos_run (by simp) (by decide) (returns_execute _ _ _)⟩

end Fiudp.Sender
