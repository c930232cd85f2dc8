import Nymora.Lib.LittleEndian

namespace Nymora.Core

-- An agora's epoch counter: a 64-bit number.
structure Epoch where
  get : Nat
  get_lt : get < 2 ^ 64
deriving DecidableEq

namespace Epoch

@[ext] theorem ext {left right : Epoch} (hget : left.get = right.get) : left = right := by
  cases left; cases right; simp only at hget; subst hget; rfl

def new (value : UInt64) : Epoch := ⟨value.toNat, value.toNat_lt⟩

-- The counter as the `u64` it is.
def u64 (epoch : Epoch) : UInt64 := .ofNat epoch.get

theorem toNat_u64 (epoch : Epoch) : epoch.u64.toNat = epoch.get := by
  rw [u64, UInt64.toNat_ofNat_of_lt']
  exact epoch.get_lt

theorem new_eq_iff {value : UInt64} {epoch : Epoch} : new value = epoch ↔ epoch.u64 = value := by
  rw [← UInt64.toNat_inj, toNat_u64]
  constructor
  · rintro rfl
    rfl
  · intro hget
    exact ext hget.symm

-- The next epoch, or `none` on overflow: rollover is checked rather than wrapping.
def next (epoch : Epoch) : Option Epoch :=
  if hlt : epoch.get + 1 < 2 ^ 64 then some ⟨epoch.get + 1, hlt⟩ else none

def toLeBytes (epoch : Epoch) : List UInt8 := LittleEndian.ofNat 8 epoch.get

def fromLeBytes (bytes : List UInt8) (hlength : bytes.length = 8) : Epoch :=
  ⟨LittleEndian.toNat bytes, by
    have hlt := LittleEndian.toNat_lt bytes
    rwa [hlength] at hlt⟩

-- The epochs from one up to, but excluding, another.
def upTo (first last : Epoch) : List Epoch :=
  List.ofFn fun index : Fin (last.get - first.get) =>
    ⟨first.get + index, by have hlt := last.get_lt; omega⟩

theorem get_of_next {epoch following : Epoch} (hnext : epoch.next = some following) :
    following.get = epoch.get + 1 := by
  unfold next at hnext
  split at hnext
  · cases hnext; rfl
  · cases hnext

@[simp] theorem length_toLeBytes (epoch : Epoch) : epoch.toLeBytes.length = 8 :=
  LittleEndian.length_ofNat 8 epoch.get

theorem toNat_toLeBytes (epoch : Epoch) : LittleEndian.toNat epoch.toLeBytes = epoch.get :=
  LittleEndian.toNat_ofNat_of_lt epoch.get_lt

theorem toLeBytes_inj {left right : Epoch} : left.toLeBytes = right.toLeBytes ↔ left = right := by
  refine ⟨fun heq => ?_, fun heq => heq ▸ rfl⟩
  apply ext
  rw [← toNat_toLeBytes left, heq, toNat_toLeBytes]

@[simp] theorem fromLeBytes_toLeBytes (epoch : Epoch) (hlength : epoch.toLeBytes.length = 8) :
    fromLeBytes epoch.toLeBytes hlength = epoch := ext (toNat_toLeBytes epoch)

theorem toLeBytes_fromLeBytes {bytes : List UInt8} (hlength : bytes.length = 8) :
    (fromLeBytes bytes hlength).toLeBytes = bytes := by
  have hback := LittleEndian.ofNat_toNat bytes
  rwa [hlength] at hback

theorem mem_upTo {first last epoch : Epoch} :
    epoch ∈ first.upTo last ↔ first.get ≤ epoch.get ∧ epoch.get < last.get := by
  unfold upTo
  rw [List.mem_ofFn]
  constructor
  · rintro ⟨index, rfl⟩
    have hindex := index.isLt
    simp only
    omega
  · intro hspan
    refine ⟨⟨epoch.get - first.get, by omega⟩, ext ?_⟩
    simp only
    omega

theorem length_upTo (first last : Epoch) : (first.upTo last).length = last.get - first.get :=
  List.length_ofFn

@[simp] theorem upTo_self (epoch : Epoch) : epoch.upTo epoch = [] := by
  rw [List.eq_nil_iff_forall_not_mem]
  intro other hmem
  have hspan := mem_upTo.1 hmem
  omega

end Epoch

end Nymora.Core
