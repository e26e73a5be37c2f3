import Mathlib.Data.BitVec

/-!
# Character tables

The Unicode character of every Atari character, and the Atari character of every Unicode character
below U+10000 that has one.

Source: `natfeat/maptab.cpp`.
-/

namespace Aranym.Natfeat

/-- The two tables. A value of `toAtari` from 0x100 on says that the character is not convertible. -/
structure Charset where
  toUtf16 : BitVec 8 → BitVec 16
  toAtari : BitVec 16 → BitVec 16

def atariToUtf16 : List (BitVec 16) :=
  [
    0x0000, 0x0001, 0x0002, 0x0003, 0x0004, 0x0005, 0x0006, 0x0007, 0x0008, 0x0009, 0x000a, 0x000b,
    0x000c, 0x000d, 0x000e, 0x000f, 0x0010, 0x0011, 0x0012, 0x0013, 0x0014, 0x0015, 0x0016, 0x0017,
    0x0018, 0x0019, 0x001a, 0x001b, 0x001c, 0x001d, 0x001e, 0x001f, 0x0020, 0x0021, 0x0022, 0x0023,
    0x0024, 0x0025, 0x0026, 0x0027, 0x0028, 0x0029, 0x002a, 0x002b, 0x002c, 0x002d, 0x002e, 0x002f,
    0x0030, 0x0031, 0x0032, 0x0033, 0x0034, 0x0035, 0x0036, 0x0037, 0x0038, 0x0039, 0x003a, 0x003b,
    0x003c, 0x003d, 0x003e, 0x003f, 0x0040, 0x0041, 0x0042, 0x0043, 0x0044, 0x0045, 0x0046, 0x0047,
    0x0048, 0x0049, 0x004a, 0x004b, 0x004c, 0x004d, 0x004e, 0x004f, 0x0050, 0x0051, 0x0052, 0x0053,
    0x0054, 0x0055, 0x0056, 0x0057, 0x0058, 0x0059, 0x005a, 0x005b, 0x005c, 0x005d, 0x005e, 0x005f,
    0x0060, 0x0061, 0x0062, 0x0063, 0x0064, 0x0065, 0x0066, 0x0067, 0x0068, 0x0069, 0x006a, 0x006b,
    0x006c, 0x006d, 0x006e, 0x006f, 0x0070, 0x0071, 0x0072, 0x0073, 0x0074, 0x0075, 0x0076, 0x0077,
    0x0078, 0x0079, 0x007a, 0x007b, 0x007c, 0x007d, 0x007e, 0x007f, 0x00c7, 0x00fc, 0x00e9, 0x00e2,
    0x00e4, 0x00e0, 0x00e5, 0x00e7, 0x00ea, 0x00eb, 0x00e8, 0x00ef, 0x00ee, 0x00ec, 0x00c4, 0x00c5,
    0x00c9, 0x00e6, 0x00c6, 0x00f4, 0x00f6, 0x00f2, 0x00fb, 0x00f9, 0x00ff, 0x00d6, 0x00dc, 0x00a2,
    0x00a3, 0x00a5, 0x00df, 0x0192, 0x00e1, 0x00ed, 0x00f3, 0x00fa, 0x00f1, 0x00d1, 0x00aa, 0x00ba,
    0x00bf, 0x2310, 0x00ac, 0x00bd, 0x00bc, 0x00a1, 0x00ab, 0x00bb, 0x00e3, 0x00f5, 0x00d8, 0x00f8,
    0x0153, 0x0152, 0x00c0, 0x00c3, 0x00d5, 0x00a8, 0x00b4, 0x2020, 0x00b6, 0x00a9, 0x00ae, 0x2122,
    0x0133, 0x0132, 0x05d0, 0x05d1, 0x05d2, 0x05d3, 0x05d4, 0x05d5, 0x05d6, 0x05d7, 0x05d8, 0x05d9,
    0x05db, 0x05dc, 0x05de, 0x05e0, 0x05e1, 0x05e2, 0x05e4, 0x05e6, 0x05e7, 0x05e8, 0x05e9, 0x05ea,
    0x05df, 0x05da, 0x05dd, 0x05e3, 0x05e5, 0x00a7, 0x2227, 0x221e, 0x03b1, 0x03b2, 0x0393, 0x03c0,
    0x03a3, 0x03c3, 0x00b5, 0x03c4, 0x03a6, 0x0398, 0x03a9, 0x03b4, 0x222e, 0x03c6, 0x2208, 0x2229,
    0x2261, 0x00b1, 0x2265, 0x2264, 0x2320, 0x2321, 0x00f7, 0x2248, 0x00b0, 0x2219, 0x00b7, 0x221a,
    0x207f, 0x00b2, 0x00b3, 0x00af]

/-- The table `utf16_to_atari` by its runs: the first character, how many follow one another, and the value
of the first, each next value being one more. What is in no run is 0xffff. -/
def utf16ToAtari : List (Nat × Nat × Nat) :=
  [
    (0x0,128,0x0), (0xa0,1,0x20), (0xa1,1,0xad), (0xa2,2,0x9b), (0xa4,1,0xde), (0xa5,1,0x9d), (0xa6,1,0xa6),
    (0xa7,1,0xdd), (0xa8,1,0xb9), (0xa9,1,0xbd), (0xaa,1,0xa6), (0xab,1,0xae), (0xac,1,0xaa), (0xad,1,0x2d),
    (0xae,1,0xbe), (0xaf,1,0xff), (0xb0,1,0xf8), (0xb1,1,0xf1), (0xb2,2,0xfd), (0xb4,1,0xba), (0xb5,1,0xe6),
    (0xb6,1,0xbc), (0xb7,1,0xfa), (0xb8,1,0xb8), (0xba,1,0xa7), (0xbb,1,0xaf), (0xbc,1,0xac), (0xbd,1,0xab),
    (0xbe,1,0xbe), (0xbf,1,0xa8), (0xc0,1,0xb6), (0xc1,2,0xc1), (0xc3,1,0xb7), (0xc4,2,0x8e), (0xc6,1,0x92),
    (0xc7,1,0x80), (0xc8,1,0xc8), (0xc9,1,0x90), (0xca,7,0xca), (0xd1,1,0xa5), (0xd2,3,0xd2), (0xd5,1,0xb8),
    (0xd6,1,0x99), (0xd7,1,0xd7), (0xd8,1,0xb2), (0xd9,3,0xd9), (0xdc,1,0x9a), (0xdd,2,0xdd), (0xdf,1,0x9e),
    (0xe0,1,0x85), (0xe1,1,0xa0), (0xe2,1,0x83), (0xe3,1,0xb0), (0xe4,1,0x84), (0xe5,1,0x86), (0xe6,1,0x91),
    (0xe7,1,0x87), (0xe8,1,0x8a), (0xe9,1,0x82), (0xea,2,0x88), (0xec,1,0x8d), (0xed,1,0xa1), (0xee,1,0x8c),
    (0xef,1,0x8b), (0xf0,1,0xf0), (0xf1,1,0xa4), (0xf2,1,0x95), (0xf3,1,0xa2), (0xf4,1,0x93), (0xf5,1,0xb1),
    (0xf6,1,0x94), (0xf7,1,0xf6), (0xf8,1,0xb3), (0xf9,1,0x97), (0xfa,1,0xa3), (0xfb,1,0x96), (0xfc,1,0x81),
    (0xfd,2,0xfd), (0xff,1,0x98), (0x100,50,0x100), (0x132,1,0xc1), (0x133,1,0xc0), (0x134,30,0x134),
    (0x152,1,0xb5), (0x153,1,0xb4), (0x154,44,0x154), (0x18f,1,0x1a), (0x192,1,0x9f), (0x2c7,1,0x2c7),
    (0x2d8,2,0x2d8), (0x2db,1,0x2db), (0x2dd,1,0x2dd), (0x384,7,0x384), (0x38c,1,0x38c), (0x38e,5,0x38e),
    (0x393,1,0xe2), (0x394,4,0x394), (0x398,1,0xe9), (0x399,9,0x399), (0x3a3,1,0xe4), (0x3a4,2,0x3a4),
    (0x3a6,1,0xe8), (0x3a7,2,0x3a7), (0x3a9,1,0xea), (0x3aa,7,0x3aa), (0x3b1,2,0xe0), (0x3b3,1,0x3b3),
    (0x3b4,1,0xeb), (0x3b5,7,0x3b5), (0x3bc,1,0xe6), (0x3bd,3,0x3bd), (0x3c0,1,0xe3), (0x3c1,2,0x3c1),
    (0x3c3,1,0xe5), (0x3c4,1,0xe7), (0x3c5,1,0x3c5), (0x3c6,1,0xed), (0x3c7,8,0x3c7), (0x3d0,2,0x3d0),
    (0x400,80,0x400), (0x5d0,10,0xc2), (0x5da,1,0xd9), (0x5db,2,0xcc), (0x5dd,1,0xda), (0x5de,1,0xce),
    (0x5df,1,0xd8), (0x5e0,3,0xcf), (0x5e3,1,0xdb), (0x5e4,1,0xd2), (0x5e5,1,0xdc), (0x5e6,5,0xd3),
    (0x600,8,0x600), (0x2020,1,0xbb), (0x2022,1,0xf9), (0x2025,1,0x2025), (0x2038,1,0xde), (0x2070,1,0x2070),
    (0x207f,1,0xfc), (0x20ac,1,0xde), (0x2116,1,0x2116), (0x2122,1,0xbf), (0x2153,1,0x2153), (0x21e6,1,0x4),
    (0x21e7,1,0x1), (0x21e8,1,0x3), (0x21e9,1,0x2), (0x2206,1,0x7f), (0x2208,1,0xee), (0x2219,1,0xf9),
    (0x221a,1,0xfb), (0x221e,1,0xdf), (0x2227,1,0xde), (0x2229,1,0xef), (0x222e,1,0xec), (0x2248,1,0xf7),
    (0x2261,1,0xf0), (0x2264,1,0xf3), (0x2265,1,0xf2), (0x2310,1,0xa9), (0x231a,1,0x9), (0x2320,2,0xf4),
    (0x237e,1,0xa), (0x240c,2,0xc), (0x241b,1,0x1b), (0x2460,9,0x11), (0x24ea,1,0x10), (0x25a0,1,0x25a0),
    (0x2610,3,0x5), (0x266a,1,0xb), (0x26f0,2,0xe), (0x26f2,4,0x1c), (0x2713,1,0x8)]

def maptab : Charset where
  toUtf16 b := atariToUtf16.getD b.toNat 0
  toAtari ch := match utf16ToAtari.find? fun r => r.1 ≤ ch.toNat && ch.toNat < r.1 + r.2.1 with
    | some r => BitVec.ofNat 16 (r.2.2 + (ch.toNat - r.1))
    | none => 0xffff

end Aranym.Natfeat
