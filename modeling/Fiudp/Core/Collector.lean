import Mathlib

/-!
# Collecting rounds

Items of several rounds arrive in any order, some of them more than once and some
never.  The collector keeps the items of every round it has not passed, rebuilds a
round as soon as it has enough of them, and from then on ignores that round and all
earlier ones.
-/

namespace Fiudp.Collector

variable {ρ κ ι α β : Type*}

/-- An item, with the round and the layout it reports and its place in the round. -/
structure Entry (ρ κ ι α : Type*) where
  round : ρ
  layout : κ
  index : ι
  item : α

def Entry.place (entry : Entry ρ κ ι α) : ρ × ι := (entry.round, entry.index)

/-- How many items a layout needs, and what is rebuilt from them. -/
structure Policy (κ ι α β : Type*) where
  needed : κ → ℕ
  rebuild : κ → List (ι × α) → Option β

/-- Rebuild a round, if there is enough of it. -/
def Policy.attempt (policy : Policy κ ι α β) (layout : κ) (pieces : List (ι × α)) : Option β :=
  if policy.needed layout ≤ pieces.length then policy.rebuild layout pieces else none

/-- The highest round that has been rebuilt, and the items of later ones. -/
structure State (ρ κ ι α : Type*) where
  highest : WithBot ρ
  kept : List (Entry ρ κ ι α)

section Definitions

variable [LinearOrder ρ] [DecidableEq κ] [DecidableEq ι]

/-- The items of one round. -/
def pieces (round : ρ) (entries : List (Entry ρ κ ι α)) : List (ι × α) :=
  (entries.filter fun entry => entry.round = round).map fun entry => (entry.index, entry.item)

/-- The indices of one round that have arrived. -/
def seen (round : ρ) (entries : List (Entry ρ κ ι α)) : Finset ι :=
  ((pieces round entries).map Prod.fst).toFinset

/-- The entry is kept only if it fits what has been kept of its round: a round has one
layout, and an index is taken once. -/
def Clashes (entry other : Entry ρ κ ι α) : Prop :=
  other.round = entry.round ∧ (other.layout ≠ entry.layout ∨ other.index = entry.index)

instance (entry other : Entry ρ κ ι α) : Decidable (Clashes entry other) :=
  inferInstanceAs (Decidable (_ ∧ _))

/-- Receive one entry: the state afterwards, and the round it completes, if any. -/
def receive (policy : Policy κ ι α β) (state : State ρ κ ι α) (entry : Entry ρ κ ι α) :
    State ρ κ ι α × Option (ρ × β) :=
  if (entry.round : WithBot ρ) ≤ state.highest then (state, none)
  else if ∃ other ∈ state.kept, Clashes entry other then (state, none)
  else
    let kept := state.kept ++ [entry]
    match policy.attempt entry.layout (pieces entry.round kept) with
    | none => (⟨state.highest, kept⟩, none)
    | some value =>
        (⟨entry.round, kept.filter fun other => entry.round < other.round⟩,
          some (entry.round, value))

/-- Receive the entries one after the other: the last state, and the rounds rebuilt on
the way. -/
def collect (policy : Policy κ ι α β) :
    State ρ κ ι α → List (Entry ρ κ ι α) → State ρ κ ι α × List (ρ × β)
  | state, [] => (state, [])
  | state, entry :: entries =>
      let (next, output) := receive policy state entry
      let (final, outputs) := collect policy next entries
      (final, output.toList ++ outputs)

/-- Enough of the round has arrived. -/
def Complete (policy : Policy κ ι α β) (entries : List (Entry ρ κ ι α)) (round : ρ) : Prop :=
  ∃ entry ∈ entries, entry.round = round ∧
    policy.needed entry.layout ≤ (seen round entries).card

end Definitions

section Pieces

variable [LinearOrder ρ] {round : ρ} {entries : List (Entry ρ κ ι α)}

@[simp]
theorem pieces_append (round : ρ) (first second : List (Entry ρ κ ι α)) :
    pieces round (first ++ second) = pieces round first ++ pieces round second := by
  simp [pieces]

theorem mem_pieces_iff {piece : ι × α} :
    piece ∈ pieces round entries ↔
      ∃ entry ∈ entries, entry.round = round ∧ piece = (entry.index, entry.item) := by
  simp only [pieces, List.mem_map, List.mem_filter, decide_eq_true_eq]
  constructor
  · rintro ⟨entry, ⟨hmem, hround⟩, rfl⟩
    exact ⟨entry, hmem, hround, rfl⟩
  · rintro ⟨entry, hmem, hround, rfl⟩
    exact ⟨entry, ⟨hmem, hround⟩, rfl⟩

theorem map_place_pieces (round : ρ) (kept : List (Entry ρ κ ι α)) :
    (pieces round kept).map Prod.fst =
      (((kept.map Entry.place).filter fun place => place.1 = round).map Prod.snd) := by
  simp only [pieces, List.filter_map, List.map_map]
  rfl

/-- Places that are taken once leave the indices of a round distinct. -/
theorem nodup_pieces {kept : List (Entry ρ κ ι α)} (hnodup : (kept.map Entry.place).Nodup)
    (round : ρ) : ((pieces round kept).map Prod.fst).Nodup := by
  rw [map_place_pieces]
  refine List.Nodup.map_on ?_ (hnodup.filter _)
  intro left hleft right hright heq
  simp only [List.mem_filter, decide_eq_true_eq] at hleft hright
  exact Prod.ext (hleft.2.trans hright.2.symm) heq

end Pieces

section Receive

variable [LinearOrder ρ] [DecidableEq κ] [DecidableEq ι] {policy : Policy κ ι α β}
  {state : State ρ κ ι α} {entry : Entry ρ κ ι α}

/-! ## One entry -/

/-- What one entry does: nothing when its round has been passed or when it clashes with
a kept one; otherwise it is kept, and it may complete its round. -/
theorem receive_cases (policy : Policy κ ι α β) (state : State ρ κ ι α)
    (entry : Entry ρ κ ι α) :
    ((entry.round : WithBot ρ) ≤ state.highest ∧ receive policy state entry = (state, none)) ∨
      (state.highest < entry.round ∧ (∃ other ∈ state.kept, Clashes entry other) ∧
        receive policy state entry = (state, none)) ∨
      (state.highest < entry.round ∧ (∀ other ∈ state.kept, ¬ Clashes entry other) ∧
        ((policy.attempt entry.layout (pieces entry.round (state.kept ++ [entry])) = none ∧
            receive policy state entry = (⟨state.highest, state.kept ++ [entry]⟩, none)) ∨
          ∃ value,
            policy.attempt entry.layout (pieces entry.round (state.kept ++ [entry])) =
              some value ∧
            receive policy state entry =
              (⟨entry.round, (state.kept ++ [entry]).filter fun other =>
                entry.round < other.round⟩, some (entry.round, value)))) := by
  rw [receive]
  by_cases hpassed : (entry.round : WithBot ρ) ≤ state.highest
  · exact .inl ⟨hpassed, if_pos hpassed⟩
  rw [if_neg hpassed]
  by_cases hclash : ∃ other ∈ state.kept, Clashes entry other
  · exact .inr (.inl ⟨not_le.mp hpassed, hclash, if_pos hclash⟩)
  rw [if_neg hclash]
  simp only [not_exists, not_and] at hclash
  refine .inr (.inr ⟨not_le.mp hpassed, hclash, ?_⟩)
  cases hattempt : policy.attempt entry.layout (pieces entry.round (state.kept ++ [entry])) with
  | none => exact .inl ⟨rfl, by simp only [hattempt]⟩
  | some value => exact .inr ⟨value, rfl, by simp only [hattempt]⟩

/-- The highest round never goes back, and what is rebuilt becomes the highest. -/
theorem receive_highest (policy : Policy κ ι α β) (state : State ρ κ ι α)
    (entry : Entry ρ κ ι α) :
    state.highest ≤ (receive policy state entry).1.highest ∧
      ∀ round value, (receive policy state entry).2 = some (round, value) →
        state.highest < round ∧ (receive policy state entry).1.highest = round := by
  rcases receive_cases policy state entry with ⟨-, heq⟩ | ⟨-, -, heq⟩ | ⟨hlt, -, hcases⟩
  · rw [heq]
    exact ⟨le_rfl, fun _ _ hsome => by cases hsome⟩
  · rw [heq]
    exact ⟨le_rfl, fun _ _ hsome => by cases hsome⟩
  · rcases hcases with ⟨-, heq⟩ | ⟨value, -, heq⟩
    · rw [heq]
      exact ⟨le_rfl, fun _ _ hsome => by cases hsome⟩
    · rw [heq]
      refine ⟨hlt.le, fun _ _ hsome => ?_⟩
      cases hsome
      exact ⟨hlt, rfl⟩

theorem receive_highest_of_none (hnone : (receive policy state entry).2 = none) :
    (receive policy state entry).1.highest = state.highest := by
  rcases receive_cases policy state entry with ⟨-, heq⟩ | ⟨-, -, heq⟩ | ⟨-, -, hcases⟩
  · rw [heq]
  · rw [heq]
  · rcases hcases with ⟨-, heq⟩ | ⟨value, -, heq⟩
    · rw [heq]
    · rw [heq] at hnone
      cases hnone

end Receive

section Collect

variable [LinearOrder ρ] [DecidableEq κ] [DecidableEq ι] {policy : Policy κ ι α β}
  {state : State ρ κ ι α} {entries : List (Entry ρ κ ι α)}

/-! ## All entries -/

theorem collect_append (first second : List (Entry ρ κ ι α)) :
    collect policy state (first ++ second) =
      ((collect policy (collect policy state first).1 second).1,
        (collect policy state first).2 ++
          (collect policy (collect policy state first).1 second).2) := by
  induction first generalizing state with
  | nil => rfl
  | cons entry first ih => simp only [List.cons_append, collect, ih, List.append_assoc]

theorem collect_concat (entry : Entry ρ κ ι α) :
    collect policy state (entries ++ [entry]) =
      ((receive policy (collect policy state entries).1 entry).1,
        (collect policy state entries).2 ++
          (receive policy (collect policy state entries).1 entry).2.toList) := by
  rw [collect_append]
  simp only [collect, List.append_nil]

/-- Whatever arrives, every round is rebuilt after the ones before it, and each at most
once. -/
theorem collect_increasing (policy : Policy κ ι α β) (state : State ρ κ ι α)
    (entries : List (Entry ρ κ ι α)) :
    ((collect policy state entries).2.map Prod.fst).Pairwise (· < ·) ∧
      ∀ output ∈ (collect policy state entries).2, state.highest < output.1 := by
  induction entries generalizing state with
  | nil => simp [collect]
  | cons entry entries ih =>
      obtain ⟨hincreasing, hlater⟩ := ih (receive policy state entry).1
      obtain ⟨hmono, hnew⟩ := receive_highest policy state entry
      simp only [collect]
      cases houtput : (receive policy state entry).2 with
      | none =>
          simp only [Option.toList_none, List.nil_append]
          exact ⟨hincreasing, fun output hmem => hmono.trans_lt (hlater output hmem)⟩
      | some output =>
          obtain ⟨hlt, heq⟩ := hnew output.1 output.2 houtput
          simp only [Option.toList_some, List.singleton_append, List.map_cons,
            List.pairwise_cons, List.forall_mem_cons, List.forall_mem_map]
          refine ⟨⟨fun later hmem => ?_, hincreasing⟩, hlt,
            fun later hmem => hmono.trans_lt (hlater later hmem)⟩
          have hbelow := hlater later hmem
          rwa [heq, WithBot.coe_lt_coe] at hbelow

/-- The highest round is at least the first one and every one that has been rebuilt. -/
theorem collect_highest (policy : Policy κ ι α β) (state : State ρ κ ι α)
    (entries : List (Entry ρ κ ι α)) :
    state.highest ≤ (collect policy state entries).1.highest ∧
      ∀ output ∈ (collect policy state entries).2,
        (output.1 : WithBot ρ) ≤ (collect policy state entries).1.highest := by
  induction entries generalizing state with
  | nil => simp [collect]
  | cons entry entries ih =>
      obtain ⟨hgrows, hbelow⟩ := ih (receive policy state entry).1
      obtain ⟨hmono, hnew⟩ := receive_highest policy state entry
      simp only [collect, List.mem_append, Option.mem_toList]
      refine ⟨hmono.trans hgrows, ?_⟩
      rintro output (hfirst | hlater)
      · rw [← (hnew output.1 output.2 hfirst).2]
        exact hgrows
      · exact hbelow output hlater

/-- The highest round is the first one, or one that has been rebuilt. -/
theorem collect_highest_eq (policy : Policy κ ι α β) (state : State ρ κ ι α)
    (entries : List (Entry ρ κ ι α)) :
    (collect policy state entries).1.highest = state.highest ∨
      ∃ output ∈ (collect policy state entries).2,
        (collect policy state entries).1.highest = output.1 := by
  induction entries generalizing state with
  | nil => exact .inl rfl
  | cons entry entries ih =>
      simp only [collect, List.mem_append, Option.mem_toList]
      rcases ih (receive policy state entry).1 with hsame | ⟨output, hmem, heq⟩
      · rw [hsame]
        cases houtput : (receive policy state entry).2 with
        | none => exact .inl (receive_highest_of_none houtput)
        | some output =>
            obtain ⟨-, heq⟩ := (receive_highest policy state entry).2 output.1 output.2 houtput
            exact .inr ⟨output, .inl rfl, heq⟩
      · exact .inr ⟨output, .inr hmem, heq⟩

end Collect

/-! ## Genuine entries -/

section Genuine

variable [LinearOrder ρ]

/-- The entries come from rounds with one layout and one value each, and what the policy
calls enough of a round determines its value. -/
structure Genuine (policy : Policy κ ι α β) (value : ρ → β)
    (entries : List (Entry ρ κ ι α)) : Prop where
  layout_eq : ∀ left ∈ entries, ∀ right ∈ entries, left.round = right.round →
    left.layout = right.layout
  rebuilds : ∀ entry ∈ entries, ∀ items : List (ι × α),
    (∀ item ∈ items, item ∈ pieces entry.round entries) → (items.map Prod.fst).Nodup →
      policy.needed entry.layout ≤ items.length →
      policy.rebuild entry.layout items = some (value entry.round)

variable {policy : Policy κ ι α β} {value : ρ → β} {entries : List (Entry ρ κ ι α)}
  {entry : Entry ρ κ ι α} {round : ρ}

theorem Genuine.of_append {first second : List (Entry ρ κ ι α)}
    (hgenuine : Genuine policy value (first ++ second)) : Genuine policy value first where
  layout_eq left hleft right hright :=
    hgenuine.layout_eq left (List.mem_append_left _ hleft) right (List.mem_append_left _ hright)
  rebuilds entry hmem items hitems :=
    hgenuine.rebuilds entry (List.mem_append_left _ hmem) items fun item hitem => by
      rw [pieces_append]
      exact List.mem_append_left _ (hitems item hitem)

variable [DecidableEq ι]

theorem mem_seen_iff {index : ι} :
    index ∈ seen round entries ↔
      ∃ entry ∈ entries, entry.round = round ∧ entry.index = index := by
  simp only [seen, List.mem_toFinset, List.mem_map, mem_pieces_iff]
  constructor
  · rintro ⟨piece, ⟨entry, hmem, hround, rfl⟩, rfl⟩
    exact ⟨entry, hmem, hround, rfl⟩
  · rintro ⟨entry, hmem, hround, rfl⟩
    exact ⟨_, ⟨entry, hmem, hround, rfl⟩, rfl⟩

theorem seen_mono {first second : List (Entry ρ κ ι α)} (hsubset : first ⊆ second) (round : ρ) :
    seen round first ⊆ seen round second := by
  intro index hindex
  obtain ⟨entry, hmem, hround, rfl⟩ := mem_seen_iff.mp hindex
  exact mem_seen_iff.mpr ⟨entry, hsubset hmem, hround, rfl⟩

theorem Complete.mono {first second : List (Entry ρ κ ι α)} (hsubset : first ⊆ second)
    (hcomplete : Complete policy first round) : Complete policy second round := by
  obtain ⟨entry, hmem, hround, henough⟩ := hcomplete
  exact ⟨entry, hsubset hmem, hround, henough.trans (Finset.card_le_card (seen_mono hsubset _))⟩

/-- An entry that adds no index to a round does not complete it. -/
theorem Complete.of_concat (hcomplete : Complete policy (entries ++ [entry]) round)
    (hseen : seen round (entries ++ [entry]) = seen round entries)
    (hother : entry.round = round →
      ∃ other ∈ entries, other.round = round ∧ other.layout = entry.layout) :
    Complete policy entries round := by
  obtain ⟨witness, hmem, hround, henough⟩ := hcomplete
  rw [hseen] at henough
  rcases List.mem_append.mp hmem with hold | hnew
  · exact ⟨witness, hold, hround, henough⟩
  · cases List.mem_singleton.mp hnew
    obtain ⟨other, hother, hsame, hlayout⟩ := hother hround
    exact ⟨other, hother, hsame, hlayout ▸ henough⟩

theorem seen_concat_of_ne (hne : entry.round ≠ round) :
    seen round (entries ++ [entry]) = seen round entries := by
  simp [seen, pieces, hne]

theorem Complete.of_concat_of_ne (hcomplete : Complete policy (entries ++ [entry]) round)
    (hne : entry.round ≠ round) : Complete policy entries round :=
  hcomplete.of_concat (seen_concat_of_ne hne) fun hround => absurd hround hne

/-- What the collector knows after the entries: the highest complete round, and every
index of the later ones exactly once. -/
structure Tracks (policy : Policy κ ι α β) (start : WithBot ρ) (entries : List (Entry ρ κ ι α))
    (state : State ρ κ ι α) : Prop where
  start_le : start ≤ state.highest
  attained : state.highest = start ∨
    ∃ round, Complete policy entries round ∧ state.highest = round
  bounds : ∀ round, Complete policy entries round → (round : WithBot ρ) ≤ state.highest
  kept_mem : ∀ entry ∈ state.kept, entry ∈ entries ∧ state.highest < entry.round
  kept_of_mem : ∀ entry ∈ entries, state.highest < entry.round →
    entry.place ∈ state.kept.map Entry.place
  kept_nodup : (state.kept.map Entry.place).Nodup

theorem tracks_nil (policy : Policy κ ι α β) (start : WithBot ρ) :
    Tracks policy start [] (⟨start, []⟩ : State ρ κ ι α) where
  start_le := le_rfl
  attained := .inl rfl
  bounds := by simp [Complete]
  kept_mem := by simp
  kept_of_mem := by simp
  kept_nodup := List.nodup_nil

variable {start : WithBot ρ} {state : State ρ κ ι α}

/-- A round is still open when it lies above the start and above every complete one. -/
theorem Tracks.lt_iff (htracks : Tracks policy start entries state) :
    state.highest < round ↔
      start < round ∧ ∀ other, Complete policy entries other → other < round := by
  constructor
  · intro hlt
    exact ⟨htracks.start_le.trans_lt hlt, fun other hother =>
      WithBot.coe_lt_coe.mp ((htracks.bounds other hother).trans_lt hlt)⟩
  · rintro ⟨hstart, hcomplete⟩
    rcases htracks.attained with heq | ⟨other, hother, heq⟩
    · rwa [heq]
    · rw [heq, WithBot.coe_lt_coe]
      exact hcomplete other hother

/-- Of an open round the collector has kept every index that has arrived. -/
theorem Tracks.seen_kept (htracks : Tracks policy start entries state)
    (hopen : state.highest < round) : seen round state.kept = seen round entries := by
  apply Finset.Subset.antisymm
  · exact seen_mono (fun entry hmem => (htracks.kept_mem entry hmem).1) round
  · intro index hindex
    obtain ⟨entry, hmem, rfl, rfl⟩ := mem_seen_iff.mp hindex
    obtain ⟨other, hother, hplace⟩ := List.mem_map.mp (htracks.kept_of_mem entry hmem hopen)
    rw [Entry.place, Entry.place, Prod.mk.injEq] at hplace
    exact mem_seen_iff.mpr ⟨other, hother, hplace⟩

section Step

variable (htracks : Tracks policy start entries state)
  (hgenuine : Genuine policy value (entries ++ [entry]))

include htracks hgenuine

/-- An entry that clashes with a kept one repeats it. -/
theorem Tracks.index_of_clash {other : Entry ρ κ ι α} (hother : other ∈ state.kept)
    (hclash : Clashes entry other) :
    other ∈ entries ∧ other.round = entry.round ∧ other.layout = entry.layout ∧
      other.index = entry.index := by
  have hmem := (htracks.kept_mem other hother).1
  have hlayout : other.layout = entry.layout :=
    hgenuine.layout_eq other (List.mem_append_left _ hmem) entry (by simp) hclash.1
  exact ⟨hmem, hclash.1, hlayout, hclash.2.resolve_left (not_not.mpr hlayout)⟩

/-- A repeated entry completes nothing. -/
theorem Tracks.not_complete_of_clash (hopen : state.highest < entry.round)
    {other : Entry ρ κ ι α} (hother : other ∈ state.kept) (hclash : Clashes entry other) :
    ¬ Complete policy (entries ++ [entry]) entry.round := by
  obtain ⟨hmem, hround, hlayout, hindex⟩ := htracks.index_of_clash hgenuine hother hclash
  have hseen : seen entry.round (entries ++ [entry]) = seen entry.round entries := by
    apply Finset.Subset.antisymm
    · intro index hindexMem
      obtain ⟨witness, hwitness, hsame, rfl⟩ := mem_seen_iff.mp hindexMem
      rcases List.mem_append.mp hwitness with hold | hnew
      · exact mem_seen_iff.mpr ⟨witness, hold, hsame, rfl⟩
      · cases List.mem_singleton.mp hnew
        exact mem_seen_iff.mpr ⟨other, hmem, hround, hindex⟩
    · exact seen_mono (List.subset_append_left _ _) _
  intro hcomplete
  have hold := hcomplete.of_concat hseen fun _ => ⟨other, hmem, hround, hlayout⟩
  exact (htracks.bounds _ hold).not_gt hopen

omit hgenuine in
/-- A new entry of an open round takes a place of its own. -/
theorem Tracks.nodup_concat (hfresh : ∀ other ∈ state.kept, ¬ Clashes entry other) :
    ((state.kept ++ [entry]).map Entry.place).Nodup := by
  rw [List.map_append, List.map_singleton, List.nodup_append]
  refine ⟨htracks.kept_nodup, List.nodup_singleton _, ?_⟩
  rintro place hplace _ hnew rfl
  obtain ⟨other, hother, heq⟩ := List.mem_map.mp hplace
  rw [List.mem_singleton.mp hnew, Entry.place, Entry.place, Prod.mk.injEq] at heq
  exact hfresh other hother ⟨heq.1, .inr heq.2⟩

omit hgenuine in
/-- The number of items that are counted is the number of indices that have arrived. -/
theorem Tracks.length_pieces (hopen : state.highest < entry.round)
    (hfresh : ∀ other ∈ state.kept, ¬ Clashes entry other) :
    (pieces entry.round (state.kept ++ [entry])).length =
      (seen entry.round (entries ++ [entry])).card := by
  have hnodup := nodup_pieces (htracks.nodup_concat hfresh) entry.round
  have hseen : seen entry.round (state.kept ++ [entry]) =
      seen entry.round (entries ++ [entry]) := by
    have hkept := htracks.seen_kept hopen
    simp only [seen, pieces_append, List.map_append, List.toFinset_append] at hkept ⊢
    rw [hkept]
  rw [← hseen, seen, List.toFinset_card_of_nodup hnodup, List.length_map]

/-- On a new entry of an open round the attempt succeeds exactly when the round is
complete. -/
theorem Tracks.attempt_eq (hopen : state.highest < entry.round)
    (hfresh : ∀ other ∈ state.kept, ¬ Clashes entry other) :
    (Complete policy (entries ++ [entry]) entry.round ∧
        policy.attempt entry.layout (pieces entry.round (state.kept ++ [entry])) =
          some (value entry.round)) ∨
      (¬ Complete policy (entries ++ [entry]) entry.round ∧
        policy.attempt entry.layout (pieces entry.round (state.kept ++ [entry])) = none) := by
  have hlength := htracks.length_pieces hopen hfresh
  have hmem : entry ∈ entries ++ [entry] := by simp
  rw [Policy.attempt]
  by_cases henough : policy.needed entry.layout ≤
      (pieces entry.round (state.kept ++ [entry])).length
  · rw [if_pos henough]
    refine .inl ⟨⟨entry, hmem, rfl, hlength ▸ henough⟩, ?_⟩
    refine hgenuine.rebuilds entry hmem _ ?_ (nodup_pieces (htracks.nodup_concat hfresh) _) henough
    intro item hitem
    obtain ⟨other, hother, hround, rfl⟩ := mem_pieces_iff.mp hitem
    refine mem_pieces_iff.mpr ⟨other, ?_, hround, rfl⟩
    rcases List.mem_append.mp hother with hkept | hnew
    · exact List.mem_append_left _ (htracks.kept_mem other hkept).1
    · exact List.mem_append_right _ hnew
  · rw [if_neg henough]
    refine .inr ⟨?_, rfl⟩
    rintro ⟨other, hother, hround, hcard⟩
    rw [hgenuine.layout_eq other hother entry hmem hround, ← hlength] at hcard
    exact henough hcard

omit hgenuine in
/-- The state may stay when the entry completes no open round and is not missed. -/
theorem Tracks.unchanged (hknown : state.highest < entry.round →
      entry.place ∈ state.kept.map Entry.place ∧
        ¬ Complete policy (entries ++ [entry]) entry.round) :
    Tracks policy start (entries ++ [entry]) state := by
  have hgrown : entries ⊆ entries ++ [entry] := List.subset_append_left _ _
  refine ⟨htracks.start_le, htracks.attained.imp_right fun ⟨round, hround, heq⟩ =>
    ⟨round, hround.mono hgrown, heq⟩, ?_, fun other hother => ?_, ?_, htracks.kept_nodup⟩
  · intro round hcomplete
    by_cases hround : entry.round = round
    · by_contra hopen
      rw [not_le, ← hround] at hopen
      exact (hknown hopen).2 (hround ▸ hcomplete)
    · exact htracks.bounds round (hcomplete.of_concat_of_ne hround)
  · exact ⟨hgrown (htracks.kept_mem other hother).1, (htracks.kept_mem other hother).2⟩
  · intro other hother hopen
    rcases List.mem_append.mp hother with hold | hnew
    · exact htracks.kept_of_mem other hold hopen
    · cases List.mem_singleton.mp hnew
      exact (hknown hopen).1

omit hgenuine in
/-- What is kept, with the new entry of an open round. -/
theorem Tracks.mem_concat (hopen : state.highest < entry.round) :
    (∀ other ∈ state.kept ++ [entry],
        other ∈ entries ++ [entry] ∧ state.highest < other.round) ∧
      ∀ other ∈ entries ++ [entry], state.highest < other.round →
        other.place ∈ (state.kept ++ [entry]).map Entry.place := by
  constructor
  · intro other hother
    rcases List.mem_append.mp hother with hold | hnew
    · exact ⟨List.mem_append_left _ (htracks.kept_mem other hold).1,
        (htracks.kept_mem other hold).2⟩
    · cases List.mem_singleton.mp hnew
      exact ⟨List.mem_append_right _ hnew, hopen⟩
  · intro other hother hlater
    rw [List.map_append]
    rcases List.mem_append.mp hother with hold | hnew
    · exact List.mem_append_left _ (htracks.kept_of_mem other hold hlater)
    · exact List.mem_append_right _ (List.mem_map_of_mem hnew)

omit hgenuine in
/-- A new entry that completes nothing is kept. -/
theorem Tracks.keep (hopen : state.highest < entry.round)
    (hfresh : ∀ other ∈ state.kept, ¬ Clashes entry other)
    (hnot : ¬ Complete policy (entries ++ [entry]) entry.round) :
    Tracks policy start (entries ++ [entry]) ⟨state.highest, state.kept ++ [entry]⟩ := by
  obtain ⟨hmem, hkept⟩ := htracks.mem_concat hopen
  refine ⟨htracks.start_le, htracks.attained.imp_right fun ⟨round, hround, heq⟩ =>
    ⟨round, hround.mono (List.subset_append_left _ _), heq⟩, ?_, hmem, hkept,
    htracks.nodup_concat hfresh⟩
  intro round hround
  by_cases hsame : entry.round = round
  · exact absurd (hsame ▸ hround) hnot
  · exact htracks.bounds round (hround.of_concat_of_ne hsame)

omit hgenuine in
/-- An entry that completes an open round closes it and everything before it. -/
theorem Tracks.close (hopen : state.highest < entry.round)
    (hfresh : ∀ other ∈ state.kept, ¬ Clashes entry other)
    (hcomplete : Complete policy (entries ++ [entry]) entry.round) :
    Tracks policy start (entries ++ [entry])
      ⟨entry.round, (state.kept ++ [entry]).filter fun other => entry.round < other.round⟩ := by
  obtain ⟨hmem, hkept⟩ := htracks.mem_concat hopen
  refine ⟨htracks.start_le.trans hopen.le, .inr ⟨_, hcomplete, rfl⟩, ?_, ?_, ?_, ?_⟩
  · intro round hround
    by_cases hsame : entry.round = round
    · rw [hsame]
    · exact (htracks.bounds round (hround.of_concat_of_ne hsame)).trans hopen.le
  · intro other hother
    simp only [List.mem_filter, decide_eq_true_eq] at hother
    exact ⟨(hmem other hother.1).1, WithBot.coe_lt_coe.mpr hother.2⟩
  · intro other hother hlater
    obtain ⟨held, hheld, hplace⟩ := List.mem_map.mp (hkept other hother (hopen.trans hlater))
    refine List.mem_map.mpr ⟨held, List.mem_filter.mpr ⟨hheld, decide_eq_true ?_⟩, hplace⟩
    rw [Entry.place, Entry.place, Prod.mk.injEq] at hplace
    rw [hplace.1]
    exact WithBot.coe_lt_coe.mp hlater
  · exact (htracks.nodup_concat hfresh).sublist (List.filter_sublist.map _)

variable [DecidableEq κ] in
/-- One genuine entry: the collector keeps track, and it rebuilds the round of the entry
exactly when the entry completes an open round. -/
theorem Tracks.receive :
    Tracks policy start (entries ++ [entry]) (receive policy state entry).1 ∧
      ((state.highest < entry.round ∧ Complete policy (entries ++ [entry]) entry.round ∧
          (Collector.receive policy state entry).2 = some (entry.round, value entry.round)) ∨
        (¬ (state.highest < entry.round ∧ Complete policy (entries ++ [entry]) entry.round) ∧
          (Collector.receive policy state entry).2 = none)) := by
  rcases receive_cases policy state entry with ⟨hle, heq⟩ | ⟨hopen, ⟨other, hother, hclash⟩, heq⟩ |
    ⟨hopen, hfresh, hcases⟩
  · rw [heq]
    exact ⟨htracks.unchanged fun hopen => absurd hopen hle.not_gt,
      .inr ⟨fun hopen => absurd hopen.1 hle.not_gt, rfl⟩⟩
  · rw [heq]
    have hnot := htracks.not_complete_of_clash hgenuine hopen hother hclash
    obtain ⟨-, hround, -, hindex⟩ := htracks.index_of_clash hgenuine hother hclash
    refine ⟨htracks.unchanged fun _ => ⟨List.mem_map.mpr ⟨other, hother, ?_⟩, hnot⟩,
      .inr ⟨fun hboth => hnot hboth.2, rfl⟩⟩
    rw [Entry.place, Entry.place, hround, hindex]
  · rcases htracks.attempt_eq hgenuine hopen hfresh with ⟨hcomplete, hsome⟩ | ⟨hnot, hnone⟩
    · obtain ⟨hfails, -⟩ | ⟨rebuilt, hrebuilt, heq⟩ := hcases
      · rw [hsome] at hfails
        cases hfails
      · cases hsome.symm.trans hrebuilt
        rw [heq]
        exact ⟨htracks.close hopen hfresh hcomplete, .inl ⟨hopen, hcomplete, rfl⟩⟩
    · obtain ⟨-, heq⟩ | ⟨rebuilt, hrebuilt, -⟩ := hcases
      · rw [heq]
        exact ⟨htracks.keep hopen hfresh hnot, .inr ⟨fun hboth => hnot hboth.2, rfl⟩⟩
      · rw [hnone] at hrebuilt
        cases hrebuilt

end Step

/-! ## What is rebuilt -/

/-- The round is complete before every later one: at the moment it becomes complete all
complete rounds are earlier ones. -/
def Delivered (policy : Policy κ ι α β) (start : WithBot ρ) (entries : List (Entry ρ κ ι α))
    (round : ρ) : Prop :=
  ∃ before entry after, entries = before ++ entry :: after ∧ entry.round = round ∧
    start < round ∧ Complete policy (before ++ [entry]) round ∧
    ∀ other, Complete policy before other → other < round

theorem delivered_concat_iff :
    Delivered policy start (entries ++ [entry]) round ↔
      Delivered policy start entries round ∨
        (entry.round = round ∧ start < round ∧ Complete policy (entries ++ [entry]) round ∧
          ∀ other, Complete policy entries other → other < round) := by
  constructor
  · rintro ⟨before, last, after, heq, hround, hstart, hcomplete, hbefore⟩
    rcases List.eq_nil_or_concat after with rfl | ⟨after, final, rfl⟩
    · obtain ⟨rfl, hlast⟩ := List.append_inj' heq rfl
      cases hlast
      exact .inr ⟨hround, hstart, hcomplete, hbefore⟩
    · rw [List.concat_eq_append, ← List.cons_append, ← List.append_assoc] at heq
      obtain ⟨rfl, -⟩ := List.append_inj' heq rfl
      exact .inl ⟨before, last, after, rfl, hround, hstart, hcomplete, hbefore⟩
  · rintro (⟨before, last, after, rfl, hdelivered⟩ | hlast)
    · exact ⟨before, last, after ++ [entry], by simp, hdelivered⟩
    · exact ⟨entries, entry, [], rfl, hlast⟩

variable [DecidableEq κ] in
/-- On genuine entries the collector tracks the highest complete round, and it rebuilds
exactly the delivered ones, each with its value. -/
theorem collect_genuine (start : WithBot ρ) (hgenuine : Genuine policy value entries) :
    Tracks policy start entries (collect policy ⟨start, []⟩ entries).1 ∧
      ∀ round result, (round, result) ∈ (collect policy ⟨start, []⟩ entries).2 ↔
        Delivered policy start entries round ∧ result = value round := by
  induction entries using List.reverseRecOn with
  | nil => exact ⟨tracks_nil policy start, by simp [collect, Delivered]⟩
  | append_singleton entries entry ih =>
      obtain ⟨htracks, hdelivered⟩ := ih hgenuine.of_append
      obtain ⟨hnext, houtput⟩ := htracks.receive hgenuine
      rw [collect_concat]
      refine ⟨hnext, fun round result => ?_⟩
      rw [List.mem_append, hdelivered, delivered_concat_iff]
      simp only [Option.mem_toList]
      rcases houtput with ⟨hopen, hcomplete, heq⟩ | ⟨hnot, heq⟩
      · have hlast := htracks.lt_iff.mp hopen
        rw [heq]
        constructor
        · rintro (hold | hnew)
          · exact ⟨.inl hold.1, hold.2⟩
          · cases hnew
            exact ⟨.inr ⟨rfl, hlast.1, hcomplete, hlast.2⟩, rfl⟩
        · rintro ⟨hold | ⟨rfl, -⟩, rfl⟩
          · exact .inl ⟨hold, rfl⟩
          · exact .inr rfl
      · rw [heq]
        constructor
        · rintro (hold | hnew)
          · exact ⟨.inl hold.1, hold.2⟩
          · cases hnew
        · rintro ⟨hold | ⟨rfl, hstart, hcomplete, hbefore⟩, rfl⟩
          · exact .inl ⟨hold, rfl⟩
          · exact absurd ⟨htracks.lt_iff.mpr ⟨hstart, hbefore⟩, hcomplete⟩ hnot

/-- A round with enough items is delivered, if no later round has any. -/
theorem delivered_iff_of_le (hlatest : ∀ entry ∈ entries, entry.round ≤ round) :
    Delivered policy start entries round ↔ start < round ∧ Complete policy entries round := by
  constructor
  · rintro ⟨before, entry, after, rfl, -, hstart, hcomplete, -⟩
    exact ⟨hstart, hcomplete.mono (by simp)⟩
  · rintro ⟨hstart, hcomplete⟩
    induction entries using List.reverseRecOn with
    | nil => simp [Complete] at hcomplete
    | append_singleton entries entry ih =>
        rw [delivered_concat_iff]
        by_cases hbefore : Complete policy entries round
        · exact .inl (ih (fun other hmem => hlatest other (List.mem_append_left _ hmem)) hbefore)
        have hround : entry.round = round := by
          by_contra hne
          exact hbefore (hcomplete.of_concat_of_ne hne)
        refine .inr ⟨hround, hstart, hcomplete, fun other hother => ?_⟩
        obtain ⟨witness, hmem, rfl, -⟩ := id hother
        refine (hlatest witness (List.mem_append_left _ hmem)).lt_of_ne ?_
        rintro rfl
        exact hbefore hother

end Genuine

end Fiudp.Collector
