import ReflinkForest.Core.Identity
import ReflinkForest.Lib.Sha

/-! Primitives with the real digest functions, for concrete runs. -/
namespace ReflinkForest
/-- SHA-1 and SHA-256 as the `sha1` and `sha2` crates compute them. The codec is
a stand-in that stores payloads unchanged; concrete runs use `Codec.raw`, which
never calls it. -/
def Primitives.reference : Primitives where
  sha1 := Sha.sha1
  sha256 := Sha.sha256
  zstdEncode raw := raw
  zstdFrame stored := ⟨stored, some []⟩

theorem Primitives.reference_zstdInverts : Primitives.reference.ZstdInverts := by
  intro raw
  rfl
end ReflinkForest
