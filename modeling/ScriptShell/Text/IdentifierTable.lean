/-!
Where identifiers and words differ, as ascending closed ranges of code points.
-/

namespace ScriptShell.Text

/-- Characters that continue an identifier but belong to no word. -/
def identifierOnly : List (Nat × Nat) :=
  [(0xB7, 0xB7), (0x387, 0x387), (0x558, 0x558), (0x58B, 0x58C), (0x5C8, 0x5C9), (0x88F, 0x88F),
   (0xB53, 0xB54), (0xC5C, 0xC5C), (0xCDC, 0xCDC), (0x1369, 0x1371), (0x19DA, 0x19DA),
   (0x1ACF, 0x1AF0), (0x208F, 0x208F), (0x209D, 0x209F), (0x2118, 0x2118), (0x212E, 0x212E),
   (0x30FB, 0x30FB), (0xA7CE, 0xA7CF), (0xA7D2, 0xA7D2), (0xA7D4, 0xA7D4), (0xA7DD, 0xA7DD),
   (0xA7E2, 0xA7E2), (0xA7F1, 0xA7F1), (0xAB6C, 0xAB6D), (0xFF65, 0xFF65), (0x107BB, 0x107BF),
   (0x10940, 0x10959), (0x10EC5, 0x10EC7), (0x10ECB, 0x10ECF), (0x10ED9, 0x10EEE),
   (0x10EF0, 0x10EFB), (0x11B0A, 0x11B0A), (0x11B60, 0x11B67), (0x11DB0, 0x11DDB),
   (0x11DE0, 0x11DE9), (0x11DF0, 0x11DF1), (0x1246F, 0x1246F), (0x12475, 0x1247F),
   (0x12550, 0x12686), (0x16EA0, 0x16EB8), (0x16EBB, 0x16ED3), (0x16FF2, 0x16FF6),
   (0x187F8, 0x187FF), (0x18CD6, 0x18CDA), (0x18D09, 0x18D20), (0x18D80, 0x18DF2),
   (0x18E00, 0x19191), (0x191A0, 0x191D2), (0x1B123, 0x1B128), (0x1B168, 0x1B168),
   (0x1D127, 0x1D128), (0x1D250, 0x1D252), (0x1D25B, 0x1D25C), (0x1D25F, 0x1D25F),
   (0x1D280, 0x1D281), (0x1D6A6, 0x1D6A6), (0x1DF1F, 0x1DF24), (0x1DF2B, 0x1DF81),
   (0x1DF90, 0x1DF96), (0x1DFCD, 0x1DFFF), (0x1E6C0, 0x1E6DE), (0x1E6E0, 0x1E6F5),
   (0x1E6FE, 0x1E6FF), (0x2B73A, 0x2B73F), (0x2B81E, 0x2B81E), (0x2CEA2, 0x2CEAD),
   (0x323B0, 0x33479), (0x3D000, 0x3FC3F)]

/-- Characters of words that do not continue an identifier. -/
def wordOnly : List (Nat × Nat) :=
  [(0x37A, 0x37A), (0x488, 0x489), (0x1ABE, 0x1ABE), (0x20DD, 0x20E0), (0x20E2, 0x20E4),
   (0x24B6, 0x24E9), (0x2E2F, 0x2E2F), (0xA670, 0xA672), (0xFC5E, 0xFC63), (0xFDFA, 0xFDFB),
   (0xFE70, 0xFE70), (0xFE72, 0xFE72), (0xFE74, 0xFE74), (0xFE76, 0xFE76), (0xFE78, 0xFE78),
   (0xFE7A, 0xFE7A), (0xFE7C, 0xFE7C), (0xFE7E, 0xFE7E), (0x1F130, 0x1F149), (0x1F150, 0x1F169),
   (0x1F170, 0x1F189)]

end ScriptShell.Text
