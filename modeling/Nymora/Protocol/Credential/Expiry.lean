import Nymora.Crypto.Reference
import Nymora.Protocol.Credential.Run

namespace Nymora.Protocol.Credential

open Nymora.Core
open Nymora.Crypto
open Nymora.Ports
open FaultyStore (Confined Erased)
open Method
open Runs

-- Nothing that acts in an epoch before this one is stored.
def ClearedBefore (agora : AgoraId) (contents : Contents) (current : Epoch) : Prop :=
  ∀ epoch : Epoch, epoch.get < current.get →
    contents (agora, .EpochKey epoch) = none ∧ contents (agora, .EpochCert epoch) = none

def BlankEpochs (agora : AgoraId) (contents : Contents) : Prop :=
  contents (agora, .EpochCursor) = none ∧ ∀ epoch,
    contents (agora, .EpochKey epoch) = none ∧ contents (agora, .EpochCert epoch) = none

abbrev Happened := Event Contents Call (Except ProtocolError Unit)

-- A sweep or a roll to an epoch that returned.
def Happened.SweptTo (happened : Happened) (current : Epoch) : Prop :=
  happened.call.request.sweepsTo = some current ∧ happened.outcome = .ok ()

-- The sweep finds a cursor to start from, or nothing older to sweep.
def Happened.Anchored (agora : AgoraId) (happened : Happened) : Prop :=
  ∀ current, happened.SweptTo current → CursorIs agora happened.before none →
    ClearedBefore agora happened.before current

-- Of the storage operations of a roll that finds no cursor, the fifth works: the one that
-- stores the cursor, or that takes back the key whose certificate was not stored.
def Happened.Uninterrupted (agora : AgoraId) (happened : Happened) : Prop :=
  ∀ keyStore current epochSecret recordSize,
    happened.call.request = .rollEpoch keyStore current epochSecret recordSize →
      CursorIs agora happened.before none → happened.call.faults.getD 4 none = none

-- Nothing stored is older than the cursor, where there is one.
def Tracked (agora : AgoraId) (contents : Contents) : Prop :=
  ∀ cursor, CursorIs agora contents (some cursor) → ClearedBefore agora contents cursor

-- Nothing acts where there is no cursor.
def Led (agora : AgoraId) (contents : Contents) : Prop :=
  CursorIs agora contents none → ∀ key ∈ acting agora, contents key = none

variable {agora : AgoraId} {current : Epoch} {storage after : SecureStorage}

theorem clearedBefore_iff {contents : Contents} : ClearedBefore agora contents current ↔
    ∀ epoch : Epoch, epoch.get < current.get → ∀ key ∈ actingIn agora epoch,
      contents key = none := by
  constructor
  · rintro hcleared epoch hlt ⟨owner, slot⟩ ⟨rfl, hslot⟩
    obtain ⟨hkey, hcert⟩ := hcleared epoch hlt
    rcases Slot.actsIn_eq_some.1 hslot with rfl | rfl
    · exact hkey
    · exact hcert
  · intro hcleared epoch hlt
    exact ⟨hcleared epoch hlt _ ⟨rfl, rfl⟩, hcleared epoch hlt _ ⟨rfl, rfl⟩⟩

-- What writes to no older slot leaves older slots clear, whatever it erases.
theorem ClearedBefore.of_confined {erasable writable : Set (AgoraId × Slot)}
    (hcleared : ClearedBefore agora storage.held current)
    (hconfined : Confined erasable writable storage after)
    (hwritable : ∀ epoch : Epoch, epoch.get < current.get → ∀ key ∈ actingIn agora epoch,
      key ∉ writable) : ClearedBefore agora after.held current := by
  rw [clearedBefore_iff] at hcleared ⊢
  intro epoch hlt key hkey
  rcases hconfined key (hwritable epoch hlt key hkey) with hkept | ⟨_, hgone⟩
  · rw [hkept]
    exact hcleared epoch hlt key hkey
  · exact hgone

theorem notMem_actingIn {epoch : Epoch} (hlt : epoch.get < current.get) :
    ∀ key ∈ actingIn agora epoch, key ∉ actingIn agora current := by
  intro key hkey hmem
  have hepoch : epoch = current := Option.some.inj (hkey.2.symm.trans hmem.2)
  rw [hepoch] at hlt
  omega

-- A sweep that met no fault clears what is older than its epoch: from the cursor on it deletes,
-- and below the cursor nothing was left.
theorem clearedBefore_of_erased {cursor : Option Epoch}
    (hcursor : CursorIs agora storage.held cursor) (htracked : Tracked agora storage.held)
    (hanchored : CursorIs agora storage.held none → ClearedBefore agora storage.held current)
    (herased : Erased (swept agora cursor current) storage after) :
    ClearedBefore agora after.held current := by
  rw [clearedBefore_iff]
  intro epoch hlt key hkey
  by_cases hswept : key ∈ swept agora cursor current
  · exact herased.gone key hswept
  rw [herased.kept key hswept]
  cases cursor with
  | none => exact clearedBefore_iff.1 (hanchored hcursor) epoch hlt key hkey
  | some first =>
      have hbelow : epoch.get < first.get := by
        by_contra hge
        exact hswept ⟨hkey.1, first, epoch, rfl, hkey.2, by omega, hlt⟩
      exact clearedBefore_iff.1 (htracked first hcursor) epoch hbelow key hkey

-- Without a cursor a sweep deletes nothing.
theorem clearedBefore_of_erased_none (hcleared : ClearedBefore agora after.held current)
    (herased : Erased (swept agora none current) storage after) :
    ClearedBefore agora storage.held current := by
  rw [clearedBefore_iff] at hcleared ⊢
  intro epoch hlt key hkey
  have hswept : key ∉ swept agora none current := by
    rintro ⟨_, first, _, hnone, _⟩
    cases hnone
  rw [← herased.kept key hswept]
  exact hcleared epoch hlt key hkey

-- What a roll writes at the end concerns its own epoch and the cursor only.
theorem clearedBefore_update {contents : Contents} {key record cursor : List UInt8} :
    ClearedBefore agora (Function.update (Function.update (Function.update contents
      (agora, .EpochKey current) (some key)) (agora, .EpochCert current) (some record))
      (agora, .EpochCursor) (some cursor)) current ↔ ClearedBefore agora contents current := by
  unfold ClearedBefore
  refine forall_congr' fun epoch => forall_congr' fun hlt => ?_
  have hne : epoch ≠ current := by
    intro heq
    rw [heq] at hlt
    omega
  simp [hne]

-- A request that leaves the cursor alone, and writes to no slot older than it, keeps track.
theorem Tracked.of_confined {erasable writable : Set (AgoraId × Slot)}
    (hconfined : Confined erasable writable storage after)
    (htracked : Tracked agora storage.held)
    (hcursor : after.held (agora, .EpochCursor) = storage.held (agora, .EpochCursor))
    (hwritable : ∀ first, CursorIs agora storage.held (some first) → ∀ epoch : Epoch,
      epoch.get < first.get → ∀ key ∈ actingIn agora epoch, key ∉ writable) :
    Tracked agora after.held := by
  intro first hfirst
  have hbefore : CursorIs agora storage.held (some first) := hcursor.symm.trans hfirst
  exact (htracked first hbefore).of_confined hconfined (hwritable first hbefore)

-- A request that writes nothing that acts, where it finds no cursor, and leaves the cursor.
theorem Led.of_confined {erasable writable : Set (AgoraId × Slot)}
    (hconfined : CursorIs agora storage.held none → Confined erasable writable storage after)
    (hled : Led agora storage.held)
    (hcursor : after.held (agora, .EpochCursor) = storage.held (agora, .EpochCursor))
    (hwritable : ∀ key ∈ acting agora, key ∉ writable) : Led agora after.held := by
  intro hnone key hkey
  have hbefore : CursorIs agora storage.held none := hcursor.symm.trans hnone
  rcases hconfined hbefore key (hwritable key hkey) with hkept | ⟨_, hgone⟩
  · rw [hkept]
    exact hled hbefore key hkey
  · exact hgone

theorem BlankEpochs.tracked {start : Contents} (hblank : BlankEpochs agora start) :
    Tracked agora start := by
  intro cursor hcursor
  exact nomatch hblank.1.symm.trans hcursor

theorem BlankEpochs.led {start : Contents} (hblank : BlankEpochs agora start) :
    Led agora start := by
  rintro _ ⟨owner, slot⟩ ⟨rfl, hslot⟩
  obtain ⟨epoch, hepoch⟩ := Option.ne_none_iff_exists'.1 hslot
  obtain ⟨hkey, hcert⟩ := hblank.2 epoch
  rcases Slot.actsIn_eq_some.1 hepoch with rfl | rfl
  · exact hkey
  · exact hcert

theorem Led.clearedBefore {contents : Contents} (hled : Led agora contents)
    (hnone : CursorIs agora contents none) : ClearedBefore agora contents current := by
  rw [clearedBefore_iff]
  intro epoch _ key hkey
  exact hled hnone key (actingIn_subset_acting hkey)

section Steps

variable [Primitives] {contents : Contents} {call : Call}

-- A sweep or roll that returned has cleared what is older than its epoch.
theorem clearedBefore_perform (htracked : Tracked agora contents)
    (hanchored : Happened.Anchored agora (event (perform agora) contents call))
    (hswept : Happened.SweptTo (event (perform agora) contents call) current) :
    ClearedBefore agora (perform agora contents call).2 current := by
  obtain ⟨hrequest, houtcome⟩ := hswept
  have hclear := hanchored current ⟨hrequest, houtcome⟩
  obtain ⟨request, faults⟩ := call
  obtain ⟨after, hrun, hafter⟩ := exists_of_perform_ok houtcome
  rw [hafter]
  cases request with
  | create keyStore entropy publicKeySize bindingSize => cases hrequest
  | rollEpoch keyStore epoch epochSecret recordSize =>
      cases hrequest
      obtain ⟨cursor, discarded, record, hcursor, _, _, herased, hheld⟩ := rollEpoch_ok hrun
      rw [hheld, clearedBefore_update]
      exact clearedBefore_of_erased hcursor htracked hclear herased
  | discardExpired epoch =>
      cases hrequest
      obtain ⟨cursor, hcursor, _, herased⟩ := discardExpired_ok hrun
      exact clearedBefore_of_erased hcursor htracked hclear herased

-- A sweep that finds no cursor leaves what it found, so it must have found nothing older.
theorem anchored_of_clearedBefore
    (hcleared : ∀ current, Happened.SweptTo (event (perform agora) contents call) current →
      ClearedBefore agora (perform agora contents call).2 current) :
    Happened.Anchored agora (event (perform agora) contents call) := by
  intro current hswept hnone
  have hafter' := hcleared current hswept
  obtain ⟨hrequest, houtcome⟩ := hswept
  obtain ⟨request, faults⟩ := call
  obtain ⟨after, hrun, hafter⟩ := exists_of_perform_ok houtcome
  rw [hafter] at hafter'
  cases request with
  | create keyStore entropy publicKeySize bindingSize => cases hrequest
  | rollEpoch keyStore epoch epochSecret recordSize =>
      cases hrequest
      obtain ⟨cursor, discarded, record, hcursor, _, _, herased, hheld⟩ := rollEpoch_ok hrun
      obtain rfl := CursorIs.unique hcursor hnone
      rw [hheld, clearedBefore_update] at hafter'
      exact clearedBefore_of_erased_none hafter' herased
  | discardExpired epoch =>
      cases hrequest
      obtain ⟨cursor, hcursor, _, herased⟩ := discardExpired_ok hrun
      obtain rfl := CursorIs.unique hcursor hnone
      exact clearedBefore_of_erased_none hafter' herased

theorem tracked_perform (htracked : Tracked agora contents)
    (hanchored : Happened.Anchored agora (event (perform agora) contents call)) :
    Tracked agora (perform agora contents call).2 := by
  obtain ⟨request, faults⟩ := call
  cases request with
  | create keyStore entropy publicKeySize bindingSize =>
      have hconfined := moves_run_create agora keyStore entropy publicKeySize bindingSize
        ⟨contents, faults⟩
      rw [perform_snd]
      apply Tracked.of_confined hconfined htracked
      · exact hconfined.held_eq (Set.notMem_empty _) (durable_disjoint (.inr rfl))
      · intro first _ epoch _ key hkey
        exact durable_disjoint (.inl (actingIn_subset_acting hkey))
  | rollEpoch keyStore current epochSecret recordSize =>
      cases hroll : rollEpoch agora keyStore current epochSecret recordSize ⟨contents, faults⟩ with
      | ok result after =>
          have hperform := perform_eq_of_ok (.rollEpoch keyStore current epochSecret recordSize)
            hroll
          have hcleared : ClearedBefore agora after.held current := by
            have hswept : ClearedBefore agora (perform agora contents _).2 current :=
              clearedBefore_perform htracked hanchored ⟨rfl, congrArg Prod.fst hperform⟩
            rwa [hperform] at hswept
          obtain ⟨_, _, _, _, _, _, _, hheld⟩ := rollEpoch_ok hroll
          rw [hperform]
          intro first hfirst
          have hcurrent : CursorIs agora after.held (some current) := by
            rw [CursorIs, hheld, Function.update_self, Option.map_some]
          obtain rfl := Option.some.inj (hfirst.unique hcurrent)
          exact hcleared
      | error refusal after =>
          rw [perform_eq_of_error (.rollEpoch keyStore current epochSecret recordSize) hroll]
          rcases rollEpoch_error hroll with hheld | ⟨cursor, hcursor, hle, hconfined⟩
          · rw [hheld]
            exact htracked
          · apply Tracked.of_confined hconfined htracked
            · exact hconfined.held_eq cursor_notMem_acting cursor_notMem_actingIn
            · intro first hfirst epoch hlt
              have hcurrent := hle first (hcursor.unique hfirst)
              exact notMem_actingIn (by omega)
  | discardExpired current =>
      have hconfined : Confined (acting agora) ∅ _ (left (discardExpired agora current
        ⟨contents, faults⟩)) := moves_discardExpired _
      rw [perform_snd]
      apply Tracked.of_confined hconfined htracked
      · exact hconfined.held_eq cursor_notMem_acting (Set.notMem_empty _)
      · intro first _ epoch _ key _
        exact Set.notMem_empty key

theorem led_perform (hled : Led agora contents)
    (huninterrupted : Happened.Uninterrupted agora (event (perform agora) contents call)) :
    Led agora (perform agora contents call).2 := by
  obtain ⟨request, faults⟩ := call
  cases request with
  | create keyStore entropy publicKeySize bindingSize =>
      have hconfined := moves_run_create agora keyStore entropy publicKeySize bindingSize
        ⟨contents, faults⟩
      rw [perform_snd]
      apply Led.of_confined (fun _ => hconfined) hled
      · exact hconfined.held_eq (Set.notMem_empty _) (durable_disjoint (.inr rfl))
      · intro key hkey
        exact durable_disjoint (.inl hkey)
  | rollEpoch keyStore current epochSecret recordSize =>
      cases hroll : rollEpoch agora keyStore current epochSecret recordSize ⟨contents, faults⟩ with
      | ok result after =>
          obtain ⟨_, _, _, _, _, _, _, hheld⟩ := rollEpoch_ok hroll
          rw [perform_eq_of_ok (.rollEpoch keyStore current epochSecret recordSize) hroll]
          intro hnone
          have hcurrent : CursorIs agora after.held (some current) := by
            rw [CursorIs, hheld, Function.update_self, Option.map_some]
          exact nomatch hnone.unique hcurrent
      | error refusal after =>
          rw [perform_eq_of_error (.rollEpoch keyStore current epochSecret recordSize) hroll]
          have hsame : after.held (agora, .EpochCursor) = contents (agora, .EpochCursor) := by
            rcases rollEpoch_error hroll with hheld | ⟨_, _, _, hconfined⟩
            · exact congrFun hheld _
            · exact hconfined.held_eq cursor_notMem_acting cursor_notMem_actingIn
          have hfifth := huninterrupted keyStore current epochSecret recordSize rfl
          apply Led.of_confined (fun hnone => rollEpoch_error_uncursored hroll hnone (hfifth hnone))
            hled hsame
          intro key _
          exact Set.notMem_empty key
  | discardExpired current =>
      have hconfined : Confined (acting agora) ∅ _ (left (discardExpired agora current
        ⟨contents, faults⟩)) := moves_discardExpired _
      rw [perform_snd]
      apply Led.of_confined (fun _ => hconfined) hled
      · exact hconfined.held_eq cursor_notMem_acting (Set.notMem_empty _)
      · intro key _
        exact Set.notMem_empty key

end Steps

section AlongRuns

variable [Primitives]

-- Every sweep and roll of a run that returned has left nothing older behind.
def ForwardSecret (agora : AgoraId) (start : Contents) (calls : List Call) : Prop :=
  ∀ happened ∈ events (perform agora) start calls, ∀ current,
    Happened.SweptTo happened current → ClearedBefore agora happened.after current

-- A run keeps forward secrecy exactly where no sweep that returns starts without a cursor over
-- older material. Only a first roll cut off between its key and the cursor sets that up.
theorem forward_secret_iff_anchored {start : Contents} (hblank : BlankEpochs agora start)
    (calls : List Call) :
    (ForwardSecret agora start calls ↔
      ∀ happened ∈ events (perform agora) start calls, Happened.Anchored agora happened) ∧
    ((∀ happened ∈ events (perform agora) start calls, Happened.Uninterrupted agora happened) →
      ForwardSecret agora start calls) := by
  have hiff : ForwardSecret agora start calls ↔
      ∀ happened ∈ events (perform agora) start calls, Happened.Anchored agora happened := by
    constructor
    · intro hsecret happened hmem
      have hcleared := hsecret happened hmem
      obtain ⟨earlier, call, later, _, rfl⟩ := mem_events hmem
      exact anchored_of_clearedBefore hcleared
    · intro hanchored happened hmem current hswept
      have htracked := guarded_invariant hblank.tracked
        (fun _ _ hguard hbefore => tracked_perform hbefore hguard) hanchored hmem
      have hguard := hanchored happened hmem
      obtain ⟨earlier, call, later, _, rfl⟩ := mem_events hmem
      exact clearedBefore_perform htracked hguard hswept
  refine ⟨hiff, fun huninterrupted => hiff.2 fun happened hmem current _ hnone => ?_⟩
  have hled : Led agora happened.before := guarded_invariant hblank.led
    (fun _ _ hguard hbefore => led_perform hbefore hguard) huninterrupted hmem
  exact hled.clearedBefore hnone

end AlongRuns

end Nymora.Protocol.Credential

namespace Nymora.Protocol.Credential.Expiry.Sample

open Nymora.Core
open Nymora.Crypto
open Nymora.Ports
open Runs
open scoped Nymora.Crypto.Reference

def agora : AgoraId := .fromBytes (Bytes.replicate 32 1)

def season (number : Nat) (hlt : number < 2 ^ 64) : Epoch := ⟨number, hlt⟩

def five : Epoch := season 5 (by decide)

def seven : Epoch := season 7 (by decide)

def nine : Epoch := season 9 (by decide)

-- Signs whatever it is given room for.
def signature (size : Nat) : Except ProtocolError (Written size) :=
  if hsize : 64 ≤ size then .ok ⟨List.replicate 64 9, by simpa using hsize⟩ else .error .Malformed

def keyStore : KeyStore where
  createRoot _ _ _ := .error .Unavailable
  signEpochCert _ := signature
  signMigration _ := signature
  signInboxCert _ := signature

def rollTo (current : Epoch) (faults : List (Option ProtocolError)) : Call :=
  ⟨.rollEpoch keyStore current (Bytes.replicate 32 3) 112, faults⟩

def blank : Contents := fun _ => none

theorem blank_blankEpochs : BlankEpochs agora blank := ⟨rfl, fun _ => ⟨rfl, rfl⟩⟩

-- The first roll stores its key and its certificate, and fails to store the cursor.
def interrupted : Call := rollTo five [none, none, none, none, some .Unavailable]

def sweep : Call := ⟨.discardExpired nine, []⟩

theorem interrupted_roll_outlives_its_sweep :
    ¬ ∀ calls : List Call,
      (calls.filterMap fun call => call.request.sweepsTo).Pairwise
        (fun earlier later => earlier.get < later.get) →
      ForwardSecret agora blank calls := by
  intro hclaim
  have hincreasing : ([interrupted, sweep].filterMap fun call => call.request.sweepsTo).Pairwise
      (fun earlier later => earlier.get < later.get) := by decide
  have hswept : Happened.SweptTo
      (event (perform agora) (perform agora blank interrupted).2 sweep) nine :=
    ⟨rfl, by decide +kernel⟩
  have hcleared := hclaim [interrupted, sweep] hincreasing _
    (List.mem_cons_of_mem _ List.mem_cons_self) nine hswept five (by decide)
  have hleft : (perform agora (perform agora blank interrupted).2 sweep).2
      (agora, .EpochKey five) ≠ none := by decide +kernel
  exact hleft hcleared.1

-- A later roll loses its cursor store, and the sweep after it still clears both keys.
def lateFault : List Call :=
  [rollTo five [], rollTo seven (List.replicate 8 none ++ [some .Unavailable]), sweep]

theorem forward_secret_iff_anchored_late : ForwardSecret agora blank lateFault := by
  apply (forward_secret_iff_anchored blank_blankEpochs lateFault).2
  intro happened hmem keyStore current epochSecret recordSize hrequest _
  simp only [lateFault, events_cons, events_nil, List.mem_cons, List.not_mem_nil, or_false] at hmem
  rcases hmem with rfl | rfl | rfl
  · rfl
  · rfl
  · cases hrequest

example : (final (perform agora) blank lateFault) (agora, .EpochKey five) = none ∧
    (final (perform agora) blank (lateFault.take 2)) (agora, .EpochKey seven) ≠ none ∧
    (final (perform agora) blank lateFault) (agora, .EpochKey seven) = none := by decide +kernel

end Nymora.Protocol.Credential.Expiry.Sample
