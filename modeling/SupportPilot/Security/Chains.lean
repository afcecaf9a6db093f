import SupportPilot.Security.Phases

/-! # Refresh sessions form linear chains

The chains of `SupportPilot.Security.Families` are kept by every run of
requests, whatever they are and however they interleave. -/

namespace SupportPilot.Security

open Lib Table

section Reachable

variable [TokenCodec] {s : State}

/-- The invariant together with the state of the families. -/
structure ChainInv (s : State) : Prop extends Inv s where
  chained : Chained s.store.committed
  logged : Logged s.store.committed s.rotations

omit [TokenCodec] in
theorem chainInv_init : ChainInv .init := by
  refine ⟨inv_init, ?_, List.nodup_nil, ?_, ?_⟩
  · intro row member
    cases member
  · intro rotation member
    cases member
  · intro row member
    cases member

theorem ChainInv.step {s' : State} {event : Event} (inv : ChainInv s)
    (taken : stepOf next s event s') : ChainInv s' := by
  have change := next_cases taken
  have inv' := inv.toInv.change change
  have tableChange := inv.toInv.tableChange change
  exact ⟨inv', inv.chained.change inv'.wf.keyed tableChange,
    inv.logged.change inv'.wf.keyed tableChange⟩

theorem chainInv_of_reachable (reached : Reachable (stepOf next) .init s) : ChainInv s :=
  reached.invariant chainInv_init fun _ _ _ inv taken => inv.step taken

/-- In every reachable state the refresh sessions form linear chains. -/
theorem linearChains_of_reachable (reached : Reachable (stepOf next) .init s) :
    LinearChains s.store.committed s.rotations := by
  have inv := chainInv_of_reachable reached
  exact linearChains inv.wf.keyed inv.chained inv.logged

end Reachable

/-! ## A login and a refresh -/

/-- The identifiers and secrets of a few tokens, with their digests. -/
@[reducible] def sampleCodec : TokenCodec where
  parseUuid raw :=
    if raw = "00000000-0000-0000-0000-000000000001".toList then some 1
    else if raw = "00000000-0000-0000-0000-000000000002".toList then some 2
    else if raw = "00000000-0000-0000-0000-000000000003".toList then some 3
    else none
  hashRefreshSecret secret :=
    if secret = List.replicate 43 'A' then
      "0f007385b6f9d4b7eeb2748605afe1a984a0a3bfa3f014d09e2a784ce9e5cd1a".toList
    else if secret = List.replicate 43 'B' then
      "412dc46cc9e3cb26f29f7c1415c556349af62904c5d15b0a2d8cfdc5cfa22b34".toList
    else if secret = List.replicate 43 'C' then
      "942014af03195c97fc8a6121a03e1660b89027a538325a101eba426dacd7e587".toList
    else "391ab01bf8d16cd248fe06202b6e6dfc149cb16c96d6163b34ec399297ab765b".toList

def firstToken : Text :=
  "00000000-0000-0000-0000-000000000001.".toList ++ List.replicate 43 'A'

def secondToken : Text :=
  "00000000-0000-0000-0000-000000000002.".toList ++ List.replicate 43 'B'

def thirdToken : Text :=
  "00000000-0000-0000-0000-000000000003.".toList ++ List.replicate 43 'C'

/-! The same samples without strings: the kernel would build the bytes of each before it decodes
them. -/

/-- `str(UUID(…))` of a digit. -/
def uuidOf (digit : Char) : Text :=
  List.replicate 8 '0' ++ '-' :: List.replicate 4 '0' ++ '-' :: List.replicate 4 '0' ++
    '-' :: List.replicate 4 '0' ++ '-' :: List.replicate 11 '0' ++ [digit]

def sampleUuid (raw : Text) : Option UUID :=
  if raw = uuidOf '1' then some 1
  else if raw = uuidOf '2' then some 2
  else if raw = uuidOf '3' then some 3
  else none

def sampleHash (secret : Text) : Text :=
  if secret = List.replicate 43 'A' then
    '0' :: Nat.toDigits 16 0xf007385b6f9d4b7eeb2748605afe1a984a0a3bfa3f014d09e2a784ce9e5cd1a
  else if secret = List.replicate 43 'B' then
    Nat.toDigits 16 0x412dc46cc9e3cb26f29f7c1415c556349af62904c5d15b0a2d8cfdc5cfa22b34
  else if secret = List.replicate 43 'C' then
    Nat.toDigits 16 0x942014af03195c97fc8a6121a03e1660b89027a538325a101eba426dacd7e587
  else Nat.toDigits 16 0x391ab01bf8d16cd248fe06202b6e6dfc149cb16c96d6163b34ec399297ab765b

theorem sampleCodec_eq : sampleCodec = ⟨sampleUuid, sampleHash⟩ := by
  refine congrArg₂ TokenCodec.mk (funext fun raw => ?_) (funext fun secret => ?_)
  -- the identifiers differ in their last digit
  · have digits : "00000000-0000-0000-0000-000000000001".toList = uuidOf '1' ∧
        "00000000-0000-0000-0000-000000000002".toList = uuidOf '2' ∧
        "00000000-0000-0000-0000-000000000003".toList = uuidOf '3' :=
      ⟨String.toList_ofList, String.toList_ofList, String.toList_ofList⟩
    rw [sampleUuid, ← digits.1, ← digits.2.1, ← digits.2.2]
  -- a digest for each secret, and one for all others
  · refine if_congr Iff.rfl ?_ (if_congr Iff.rfl ?_ (if_congr Iff.rfl ?_ ?_))
    all_goals
      rw [String.toList_ofList]
      decide

theorem firstToken_eq : firstToken = uuidOf '1' ++ ['.'] ++ List.replicate 43 'A' :=
  congrArg (· ++ List.replicate 43 'A') String.toList_ofList

theorem secondToken_eq : secondToken = uuidOf '2' ++ ['.'] ++ List.replicate 43 'B' :=
  congrArg (· ++ List.replicate 43 'B') String.toList_ofList

theorem thirdToken_eq : thirdToken = uuidOf '3' ++ ['.'] ++ List.replicate 43 'C' :=
  congrArg (· ++ List.replicate 43 'C') String.toList_ofList

/-- A login that starts family 7, and a refresh with its token. -/
def loginAndRefresh : List Event :=
  [⟨0, .issue ⟨1, List.replicate 43 'A'⟩ 5 7 30 ⟨none, none⟩ 100⟩, ⟨0, .commit⟩,
    ⟨1, .selectForRotation firstToken 200⟩, ⟨1, .readUser true⟩,
    ⟨1, .insertReplacement ⟨2, List.replicate 43 'B'⟩ 30 ⟨none, none⟩ 201⟩, ⟨1, .commit⟩]

theorem linearChains_loginAndRefresh :
    ∃ s, @exec _ _ (@next sampleCodec) .init loginAndRefresh = some s ∧
    LinearChains s.store.committed s.rotations ∧ s.rotations = [⟨7, 1, 2⟩] := by
  let := sampleCodec
  have executed : ((exec (@next sampleCodec) .init loginAndRefresh).any fun s =>
      s.rotations = [⟨7, 1, 2⟩]) = true := by
    rw [sampleCodec_eq, loginAndRefresh, firstToken_eq]
    decide
  obtain ⟨s, ran, rotated⟩ := (Option.any_eq_true _ _).mp executed
  exact ⟨s, ran, linearChains_of_reachable ⟨_, Run.of_exec ran⟩, of_decide_eq_true rotated⟩

end SupportPilot.Security
