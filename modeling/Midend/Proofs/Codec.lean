import Midend.Proofs.KeyOrder
import Midend.Proofs.ReadUnit

/-!
# Midend.Proofs.Codec

The codec of units. A unit is decoded from its encoding, type table and all, and whatever is decoded
at all is one of the ways to write the unit that comes out: these ways are the unit's shape, so that
an option left out or `null`, a type table, names or a span left out, a bare variant as a string or
as an object, and fields that nobody asks for are all the same unit, with the one encoding. In
another order of keys it is the same unit too, with the same type of each node.
-/

namespace Midend

open Json

namespace SourceUnit

variable {u : SourceUnit} {j k : Json}

theorem ofJson_encode (u : SourceUnit) : ofJson u.encode = .ok u := ofJson_eq_ok.2 u.shape_encode

/-- A limit only refuses: what is decoded within one is decoded without it. -/
theorem ofJson_of_decode {limit : Nat} (h : decode limit j = .ok u) : ofJson j = .ok u :=
  ofJson_eq_ok.2 ((reads limit).sound h)

theorem ofJson_reordered (h : Reordered j k) (hu : ofJson j = .ok u) :
    ∃ v, ofJson k = .ok v ∧ u.Same v ∧ Reordered u.encode v.encode := by
  obtain ⟨v, hv, hname, hdecls, htypes⟩ := shape_reordered h (ofJson_eq_ok.1 hu)
  exact ⟨v, ofJson_eq_ok.2 hv, ⟨hname, hdecls, TypeTable.same_of_perm htypes⟩,
    encode_reordered hname hdecls htypes⟩

theorem codec_roundtrips :
    (∀ u : SourceUnit, ofJson u.encode = .ok u) ∧
    (∀ limit j u, decode limit j = .ok u → ofJson j = .ok u ∧ ofJson u.encode = .ok u) ∧
    (∀ j u, ofJson j = .ok u ↔ u.shape j) ∧
    (∀ j k u, Reordered j k → ofJson j = .ok u →
      ∃ v, ofJson k = .ok v ∧ u.Same v ∧ Reordered u.encode v.encode) :=
  ⟨ofJson_encode, fun _ _ u h => ⟨ofJson_of_decode h, u.ofJson_encode⟩, fun _ _ => ofJson_eq_ok,
    fun _ _ _ => ofJson_reordered⟩

/-- The fields of a unit with an external function, where what may be left out is left out. -/
def terse : Fields :=
  [("decls", .arr [.obj [("span", .arr [.int 0, .int 9]), ("note", .null), ("id", .int 1),
      ("kind", .obj [("Func", .obj [("name", .str "f"), ("results", .arr []),
        ("params", .arr [.obj [("ty", .obj [("kind", .obj [("Interface", .null)]),
          ("span", .obj [("end", .int 8), ("start", .int 7)])])]])])])]]),
    ("name", .str "unit")]

def external : SourceUnit :=
  ⟨"unit", [.func ⟨⟨1⟩, ⟨0, 9⟩⟩ ⟨"f", [.mk [] (.interface ⟨7, 8⟩) .empty], [], none⟩], .empty⟩

theorem codec_roundtrips_terse :
    decode maxDepth (.obj terse) = .ok external ∧ ofJson external.encode = .ok external ∧
      ∃ v, ofJson (.obj terse.reverse) = .ok v ∧ external.Same v := by
  have hdecode : decode maxDepth (.obj terse) = .ok external := rfl
  have hread := codec_roundtrips.2.1 _ _ _ hdecode
  have hswap : Reordered (.obj terse) (.obj terse.reverse) :=
    .obj (by decide) (.refl _) (List.reverse_perm _).symm
  obtain ⟨v, hv, hsame, -⟩ := codec_roundtrips.2.2.2 _ _ _ hswap hread.1
  exact ⟨hdecode, hread.2, v, hv, hsame⟩

end SourceUnit

end Midend
