import UniversalMachine.Numeral

namespace UniversalMachine

abbrev Word := UInt32

namespace Word

def ofBytes (b₀ b₁ b₂ b₃ : UInt8) : Word :=
  .ofNat (((b₀.toNat * 256 + b₁.toNat) * 256 + b₂.toNat) * 256 + b₃.toNat)

def toBytes (w : Word) : List UInt8 :=
  [.ofNat (w.toNat / 0x1000000), .ofNat (w.toNat / 0x10000), .ofNat (w.toNat / 0x100),
    .ofNat w.toNat]

@[simp] theorem length_toBytes (w : Word) : w.toBytes.length = 4 := rfl

theorem ofBytes_toBytes (w : Word) :
    ofBytes (.ofNat (w.toNat / 0x1000000)) (.ofNat (w.toNat / 0x10000)) (.ofNat (w.toNat / 0x100))
      (.ofNat w.toNat) = w := by
  have := w.toNat_lt
  apply UInt32.toNat_inj.mp
  simp only [ofBytes, UInt32.toNat_ofNat', UInt8.toNat_ofNat']
  omega

theorem toBytes_ofBytes (b₀ b₁ b₂ b₃ : UInt8) : toBytes (ofBytes b₀ b₁ b₂ b₃) = [b₀, b₁, b₂, b₃] := by
  have := b₀.toNat_lt
  have := b₁.toNat_lt
  have := b₂.toNat_lt
  have := b₃.toNat_lt
  simp only [toBytes, ofBytes, UInt32.toNat_ofNat', List.cons.injEq, and_true, ← UInt8.toNat_inj,
    UInt8.toNat_ofNat']
  omega

def hex (w : Word) : String := Numeral.hexPadded 8 w.toNat

end Word

end UniversalMachine
