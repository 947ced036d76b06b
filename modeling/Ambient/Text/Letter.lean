/-!
# Letter case

Which characters are lowercase or uppercase letters in the sense of Unicode 17 (the derived
properties `Lowercase` and `Uppercase`, so `ª`, `ⓐ` and `ⅰ` count as lowercase). A name is judged by
its first character only; `_`, `$` and digits have no case.
-/

namespace Ambient.Letter

/-- Evenly spaced code points: `first`, `first + stride`, ... , `count` of them. -/
structure Run where
  first : Nat
  count : Nat
  stride : Nat
deriving DecidableEq, Repr

/-- Whether code point `n` is one of the run. -/
def Run.contains (r : Run) (n : Nat) : Bool :=
  r.first ≤ n && (n - r.first) % r.stride == 0 && (n - r.first) / r.stride < r.count

/-- The lowercase code points in increasing order of run. -/
def lowercase : List Run :=
  [⟨0x61, 26, 1⟩, ⟨0xaa, 1, 1⟩, ⟨0xb5, 1, 1⟩, ⟨0xba, 1, 1⟩, ⟨0xdf, 24, 1⟩, ⟨0xf8, 8, 1⟩,
   ⟨0x101, 28, 2⟩, ⟨0x138, 9, 2⟩, ⟨0x149, 24, 2⟩, ⟨0x17a, 3, 2⟩, ⟨0x17f, 2, 1⟩, ⟨0x183, 2, 2⟩,
   ⟨0x188, 1, 1⟩, ⟨0x18c, 2, 1⟩, ⟨0x192, 1, 1⟩, ⟨0x195, 1, 1⟩, ⟨0x199, 3, 1⟩, ⟨0x19e, 1, 1⟩,
   ⟨0x1a1, 3, 2⟩, ⟨0x1a8, 2, 2⟩, ⟨0x1ab, 2, 2⟩, ⟨0x1b0, 1, 1⟩, ⟨0x1b4, 2, 2⟩, ⟨0x1b9, 2, 1⟩,
   ⟨0x1bd, 3, 1⟩, ⟨0x1c6, 1, 1⟩, ⟨0x1c9, 1, 1⟩, ⟨0x1cc, 9, 2⟩, ⟨0x1dd, 10, 2⟩, ⟨0x1f0, 1, 1⟩,
   ⟨0x1f3, 2, 2⟩, ⟨0x1f9, 30, 2⟩, ⟨0x234, 6, 1⟩, ⟨0x23c, 1, 1⟩, ⟨0x23f, 2, 1⟩, ⟨0x242, 1, 1⟩,
   ⟨0x247, 5, 2⟩, ⟨0x250, 68, 1⟩, ⟨0x296, 35, 1⟩, ⟨0x2c0, 2, 1⟩, ⟨0x2e0, 5, 1⟩, ⟨0x345, 1, 1⟩,
   ⟨0x371, 2, 2⟩, ⟨0x377, 1, 1⟩, ⟨0x37a, 4, 1⟩, ⟨0x390, 1, 1⟩, ⟨0x3ac, 35, 1⟩, ⟨0x3d0, 2, 1⟩,
   ⟨0x3d5, 3, 1⟩, ⟨0x3d9, 12, 2⟩, ⟨0x3f0, 4, 1⟩, ⟨0x3f5, 1, 1⟩, ⟨0x3f8, 1, 1⟩, ⟨0x3fb, 2, 1⟩,
   ⟨0x430, 48, 1⟩, ⟨0x461, 17, 2⟩, ⟨0x48b, 27, 2⟩, ⟨0x4c2, 7, 2⟩, ⟨0x4cf, 49, 2⟩, ⟨0x560, 41, 1⟩,
   ⟨0x10d0, 43, 1⟩, ⟨0x10fc, 4, 1⟩, ⟨0x13f8, 6, 1⟩, ⟨0x1c80, 9, 1⟩, ⟨0x1c8a, 1, 1⟩,
   ⟨0x1d00, 192, 1⟩, ⟨0x1e01, 75, 2⟩, ⟨0x1e96, 8, 1⟩, ⟨0x1e9f, 49, 2⟩, ⟨0x1f00, 8, 1⟩,
   ⟨0x1f10, 6, 1⟩, ⟨0x1f20, 8, 1⟩, ⟨0x1f30, 8, 1⟩, ⟨0x1f40, 6, 1⟩, ⟨0x1f50, 8, 1⟩, ⟨0x1f60, 8, 1⟩,
   ⟨0x1f70, 14, 1⟩, ⟨0x1f80, 8, 1⟩, ⟨0x1f90, 8, 1⟩, ⟨0x1fa0, 8, 1⟩, ⟨0x1fb0, 5, 1⟩, ⟨0x1fb6, 2, 1⟩,
   ⟨0x1fbe, 1, 1⟩, ⟨0x1fc2, 3, 1⟩, ⟨0x1fc6, 2, 1⟩, ⟨0x1fd0, 4, 1⟩, ⟨0x1fd6, 2, 1⟩, ⟨0x1fe0, 8, 1⟩,
   ⟨0x1ff2, 3, 1⟩, ⟨0x1ff6, 2, 1⟩, ⟨0x2071, 1, 1⟩, ⟨0x207f, 1, 1⟩, ⟨0x2090, 13, 1⟩, ⟨0x210a, 1, 1⟩,
   ⟨0x210e, 2, 1⟩, ⟨0x2113, 1, 1⟩, ⟨0x212f, 1, 1⟩, ⟨0x2134, 1, 1⟩, ⟨0x2139, 1, 1⟩, ⟨0x213c, 2, 1⟩,
   ⟨0x2146, 4, 1⟩, ⟨0x214e, 1, 1⟩, ⟨0x2170, 16, 1⟩, ⟨0x2184, 1, 1⟩, ⟨0x24d0, 26, 1⟩,
   ⟨0x2c30, 48, 1⟩, ⟨0x2c61, 1, 1⟩, ⟨0x2c65, 2, 1⟩, ⟨0x2c68, 3, 2⟩, ⟨0x2c71, 2, 2⟩, ⟨0x2c74, 2, 2⟩,
   ⟨0x2c77, 7, 1⟩, ⟨0x2c81, 50, 2⟩, ⟨0x2ce4, 1, 1⟩, ⟨0x2cec, 2, 2⟩, ⟨0x2cf3, 1, 1⟩,
   ⟨0x2d00, 38, 1⟩, ⟨0x2d27, 1, 1⟩, ⟨0x2d2d, 1, 1⟩, ⟨0xa641, 23, 2⟩, ⟨0xa681, 14, 2⟩,
   ⟨0xa69c, 2, 1⟩, ⟨0xa723, 7, 2⟩, ⟨0xa730, 2, 1⟩, ⟨0xa733, 31, 2⟩, ⟨0xa770, 9, 1⟩, ⟨0xa77a, 2, 2⟩,
   ⟨0xa77f, 5, 2⟩, ⟨0xa78c, 2, 2⟩, ⟨0xa791, 2, 2⟩, ⟨0xa794, 2, 1⟩, ⟨0xa797, 10, 2⟩, ⟨0xa7af, 1, 1⟩,
   ⟨0xa7b5, 8, 2⟩, ⟨0xa7c8, 2, 2⟩, ⟨0xa7cd, 8, 2⟩, ⟨0xa7f1, 4, 1⟩, ⟨0xa7f6, 2, 2⟩, ⟨0xa7f9, 2, 1⟩,
   ⟨0xab30, 43, 1⟩, ⟨0xab5c, 14, 1⟩, ⟨0xab70, 80, 1⟩, ⟨0xfb00, 7, 1⟩, ⟨0xfb13, 5, 1⟩,
   ⟨0xff41, 26, 1⟩, ⟨0x10428, 40, 1⟩, ⟨0x104d8, 36, 1⟩, ⟨0x10597, 11, 1⟩, ⟨0x105a3, 15, 1⟩,
   ⟨0x105b3, 7, 1⟩, ⟨0x105bb, 2, 1⟩, ⟨0x10780, 1, 1⟩, ⟨0x10783, 3, 1⟩, ⟨0x10787, 42, 1⟩,
   ⟨0x107b2, 9, 1⟩, ⟨0x10cc0, 51, 1⟩, ⟨0x10d70, 22, 1⟩, ⟨0x118c0, 32, 1⟩, ⟨0x16e60, 32, 1⟩,
   ⟨0x16ebb, 25, 1⟩, ⟨0x1d41a, 26, 1⟩, ⟨0x1d44e, 7, 1⟩, ⟨0x1d456, 18, 1⟩, ⟨0x1d482, 26, 1⟩,
   ⟨0x1d4b6, 4, 1⟩, ⟨0x1d4bb, 2, 2⟩, ⟨0x1d4be, 6, 1⟩, ⟨0x1d4c5, 11, 1⟩, ⟨0x1d4ea, 26, 1⟩,
   ⟨0x1d51e, 26, 1⟩, ⟨0x1d552, 26, 1⟩, ⟨0x1d586, 26, 1⟩, ⟨0x1d5ba, 26, 1⟩, ⟨0x1d5ee, 26, 1⟩,
   ⟨0x1d622, 26, 1⟩, ⟨0x1d656, 26, 1⟩, ⟨0x1d68a, 28, 1⟩, ⟨0x1d6c2, 25, 1⟩, ⟨0x1d6dc, 6, 1⟩,
   ⟨0x1d6fc, 25, 1⟩, ⟨0x1d716, 6, 1⟩, ⟨0x1d736, 25, 1⟩, ⟨0x1d750, 6, 1⟩, ⟨0x1d770, 25, 1⟩,
   ⟨0x1d78a, 6, 1⟩, ⟨0x1d7aa, 25, 1⟩, ⟨0x1d7c4, 6, 1⟩, ⟨0x1d7cb, 1, 1⟩, ⟨0x1df00, 10, 1⟩,
   ⟨0x1df0b, 20, 1⟩, ⟨0x1df25, 6, 1⟩, ⟨0x1e030, 62, 1⟩, ⟨0x1e922, 34, 1⟩]

/-- The uppercase code points in increasing order of run. -/
def uppercase : List Run :=
  [⟨0x41, 26, 1⟩, ⟨0xc0, 23, 1⟩, ⟨0xd8, 7, 1⟩, ⟨0x100, 28, 2⟩, ⟨0x139, 8, 2⟩, ⟨0x14a, 24, 2⟩,
   ⟨0x179, 3, 2⟩, ⟨0x181, 2, 1⟩, ⟨0x184, 2, 2⟩, ⟨0x187, 2, 2⟩, ⟨0x18a, 2, 1⟩, ⟨0x18e, 4, 1⟩,
   ⟨0x193, 2, 1⟩, ⟨0x196, 3, 1⟩, ⟨0x19c, 2, 1⟩, ⟨0x19f, 2, 1⟩, ⟨0x1a2, 3, 2⟩, ⟨0x1a7, 2, 2⟩,
   ⟨0x1ac, 2, 2⟩, ⟨0x1af, 2, 2⟩, ⟨0x1b2, 2, 1⟩, ⟨0x1b5, 2, 2⟩, ⟨0x1b8, 1, 1⟩, ⟨0x1bc, 1, 1⟩,
   ⟨0x1c4, 1, 1⟩, ⟨0x1c7, 1, 1⟩, ⟨0x1ca, 1, 1⟩, ⟨0x1cd, 8, 2⟩, ⟨0x1de, 9, 2⟩, ⟨0x1f1, 1, 1⟩,
   ⟨0x1f4, 2, 2⟩, ⟨0x1f7, 2, 1⟩, ⟨0x1fa, 29, 2⟩, ⟨0x23a, 2, 1⟩, ⟨0x23d, 2, 1⟩, ⟨0x241, 2, 2⟩,
   ⟨0x244, 3, 1⟩, ⟨0x248, 4, 2⟩, ⟨0x370, 2, 2⟩, ⟨0x376, 1, 1⟩, ⟨0x37f, 1, 1⟩, ⟨0x386, 2, 2⟩,
   ⟨0x389, 2, 1⟩, ⟨0x38c, 2, 2⟩, ⟨0x38f, 2, 2⟩, ⟨0x392, 16, 1⟩, ⟨0x3a3, 9, 1⟩, ⟨0x3cf, 1, 1⟩,
   ⟨0x3d2, 3, 1⟩, ⟨0x3d8, 12, 2⟩, ⟨0x3f4, 1, 1⟩, ⟨0x3f7, 2, 2⟩, ⟨0x3fa, 1, 1⟩, ⟨0x3fd, 51, 1⟩,
   ⟨0x460, 17, 2⟩, ⟨0x48a, 28, 2⟩, ⟨0x4c1, 7, 2⟩, ⟨0x4d0, 48, 2⟩, ⟨0x531, 38, 1⟩, ⟨0x10a0, 38, 1⟩,
   ⟨0x10c7, 1, 1⟩, ⟨0x10cd, 1, 1⟩, ⟨0x13a0, 86, 1⟩, ⟨0x1c89, 1, 1⟩, ⟨0x1c90, 43, 1⟩,
   ⟨0x1cbd, 3, 1⟩, ⟨0x1e00, 75, 2⟩, ⟨0x1e9e, 49, 2⟩, ⟨0x1f08, 8, 1⟩, ⟨0x1f18, 6, 1⟩,
   ⟨0x1f28, 8, 1⟩, ⟨0x1f38, 8, 1⟩, ⟨0x1f48, 6, 1⟩, ⟨0x1f59, 4, 2⟩, ⟨0x1f68, 8, 1⟩, ⟨0x1fb8, 4, 1⟩,
   ⟨0x1fc8, 4, 1⟩, ⟨0x1fd8, 4, 1⟩, ⟨0x1fe8, 5, 1⟩, ⟨0x1ff8, 4, 1⟩, ⟨0x2102, 1, 1⟩, ⟨0x2107, 1, 1⟩,
   ⟨0x210b, 3, 1⟩, ⟨0x2110, 3, 1⟩, ⟨0x2115, 1, 1⟩, ⟨0x2119, 5, 1⟩, ⟨0x2124, 4, 2⟩, ⟨0x212b, 3, 1⟩,
   ⟨0x2130, 4, 1⟩, ⟨0x213e, 2, 1⟩, ⟨0x2145, 1, 1⟩, ⟨0x2160, 16, 1⟩, ⟨0x2183, 1, 1⟩,
   ⟨0x24b6, 26, 1⟩, ⟨0x2c00, 48, 1⟩, ⟨0x2c60, 2, 2⟩, ⟨0x2c63, 2, 1⟩, ⟨0x2c67, 4, 2⟩,
   ⟨0x2c6e, 3, 1⟩, ⟨0x2c72, 1, 1⟩, ⟨0x2c75, 1, 1⟩, ⟨0x2c7e, 3, 1⟩, ⟨0x2c82, 49, 2⟩, ⟨0x2ceb, 2, 2⟩,
   ⟨0x2cf2, 1, 1⟩, ⟨0xa640, 23, 2⟩, ⟨0xa680, 14, 2⟩, ⟨0xa722, 7, 2⟩, ⟨0xa732, 31, 2⟩,
   ⟨0xa779, 3, 2⟩, ⟨0xa77e, 5, 2⟩, ⟨0xa78b, 2, 2⟩, ⟨0xa790, 2, 2⟩, ⟨0xa796, 11, 2⟩, ⟨0xa7ab, 4, 1⟩,
   ⟨0xa7b0, 5, 1⟩, ⟨0xa7b6, 8, 2⟩, ⟨0xa7c5, 3, 1⟩, ⟨0xa7c9, 2, 2⟩, ⟨0xa7cc, 9, 2⟩, ⟨0xa7f5, 1, 1⟩,
   ⟨0xff21, 26, 1⟩, ⟨0x10400, 40, 1⟩, ⟨0x104b0, 36, 1⟩, ⟨0x10570, 11, 1⟩, ⟨0x1057c, 15, 1⟩,
   ⟨0x1058c, 7, 1⟩, ⟨0x10594, 2, 1⟩, ⟨0x10c80, 51, 1⟩, ⟨0x10d50, 22, 1⟩, ⟨0x118a0, 32, 1⟩,
   ⟨0x16e40, 32, 1⟩, ⟨0x16ea0, 25, 1⟩, ⟨0x1d400, 26, 1⟩, ⟨0x1d434, 26, 1⟩, ⟨0x1d468, 26, 1⟩,
   ⟨0x1d49c, 2, 2⟩, ⟨0x1d49f, 1, 1⟩, ⟨0x1d4a2, 1, 1⟩, ⟨0x1d4a5, 2, 1⟩, ⟨0x1d4a9, 4, 1⟩,
   ⟨0x1d4ae, 8, 1⟩, ⟨0x1d4d0, 26, 1⟩, ⟨0x1d504, 2, 1⟩, ⟨0x1d507, 4, 1⟩, ⟨0x1d50d, 8, 1⟩,
   ⟨0x1d516, 7, 1⟩, ⟨0x1d538, 2, 1⟩, ⟨0x1d53b, 4, 1⟩, ⟨0x1d540, 5, 1⟩, ⟨0x1d546, 1, 1⟩,
   ⟨0x1d54a, 7, 1⟩, ⟨0x1d56c, 26, 1⟩, ⟨0x1d5a0, 26, 1⟩, ⟨0x1d5d4, 26, 1⟩, ⟨0x1d608, 26, 1⟩,
   ⟨0x1d63c, 26, 1⟩, ⟨0x1d670, 26, 1⟩, ⟨0x1d6a8, 25, 1⟩, ⟨0x1d6e2, 25, 1⟩, ⟨0x1d71c, 25, 1⟩,
   ⟨0x1d756, 25, 1⟩, ⟨0x1d790, 25, 1⟩, ⟨0x1d7ca, 1, 1⟩, ⟨0x1e900, 34, 1⟩, ⟨0x1f130, 26, 1⟩,
   ⟨0x1f150, 26, 1⟩, ⟨0x1f170, 26, 1⟩]

/-- A lowercase letter. -/
def isLower (c : Char) : Bool := lowercase.any (·.contains c.toNat)

/-- An uppercase letter. -/
def isUpper (c : Char) : Bool := uppercase.any (·.contains c.toNat)

/-- Whether a name starts with a lowercase letter. The empty name does not. -/
def startsLower (name : String) : Bool := name.toList.head?.any isLower

/-- Whether a name starts with an uppercase letter. The empty name does not. -/
def startsUpper (name : String) : Bool := name.toList.head?.any isUpper

end Ambient.Letter
