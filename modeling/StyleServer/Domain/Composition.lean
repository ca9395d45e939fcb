/-
  Composed characters.

  A letter with marks can be written in several ways, of which one is normal:
  the characters are taken apart, the marks behind a letter are put into the
  order of their classes, and what can be composed is composed.  A mark is
  composed with its letter unless one of the same class or a higher one stands
  between them.

  The tables are about the characters that domains hold.
-/
import StyleServer.Text.CodeTable

namespace StyleServer

namespace Domain

/-- The classes of combining marks. -/
def classTable : CodeTable Nat := .ofText hexNumber "
  300-314:E6 315:E8 316-319:DC 31A:E8 31B:D8 31C-320:DC 321-322:CA 323-326:DC 327-328:CA
  329-333:DC 334-338:1 339-33C:DC 33D-346:E6 347-349:DC 34A-34C:E6 34D-34E:DC 350-352:E6
  353-356:DC 357:E6 358:E8 359-35A:DC 35B:E6 35C:E9 35D-35E:EA 35F:E9 360-361:EA 362:E9 363-36F:E6
  483-487:E6 591:DC 592-595:E6 596:DC 597-599:E6 59A:DE 59B:DC 59C-5A1:E6 5A2-5A7:DC 5A8-5A9:E6
  5AA:DC 5AB-5AC:E6 5AD:DE 5AE:E4 5AF:E6 5B0:A 5B1:B 5B2:C 5B3:D 5B4:E 5B5:F 5B6:10 5B7:11 5B8:12
  5B9-5BA:13 5BB:14 5BC:15 5BD:16 5BF:17 5C1:18 5C2:19 5C4:E6 5C5:DC 5C7:12 610-617:E6 618:1E
  619:1F 61A:20 64B:1B 64C:1C 64D:1D 64E:1E 64F:1F 650:20 651:21 652:22 653-654:E6 655-656:DC
  657-65B:E6 65C:DC 65D-65E:E6 65F:DC 670:23 6D6-6DC:E6 6DF-6E2:E6 6E3:DC 6E4:E6 6E7-6E8:E6 6EA:DC
  6EB-6EC:E6 6ED:DC 711:24 730:E6 731:DC 732-733:E6 734:DC 735-736:E6 737-739:DC 73A:E6 73B-73C:DC
  73D:E6 73E:DC 73F-741:E6 742:DC 743:E6 744:DC 745:E6 746:DC 747:E6 748:DC 749-74A:E6 7EB-7F1:E6
  7F2:DC 7F3:E6 7FD:DC 816-819:E6 81B-823:E6 825-827:E6 829-82D:E6 859-85B:DC 897-898:E6
  899-89B:DC 89C-89F:E6 8CA-8CE:E6 8CF-8D3:DC 8D4-8E1:E6 8E3:DC 8E4-8E5:E6 8E6:DC 8E7-8E8:E6
  8E9:DC 8EA-8EC:E6 8ED-8EF:DC 8F0:1B 8F1:1C 8F2:1D 8F3-8F5:E6 8F6:DC 8F7-8F8:E6 8F9-8FA:DC
  8FB-8FF:E6 93C:7 94D:9 951:E6 952:DC 953-954:E6 9BC:7 9CD:9 9FE:E6 A3C:7 A4D:9 ABC:7 ACD:9 B3C:7
  B4D:9 BCD:9 C3C:7 C4D:9 C55:54 C56:5B CBC:7 CCD:9 D3B-D3C:9 D4D:9 DCA:9 E38-E39:67 E3A:9
  E48-E4B:6B EB8-EB9:76 EBA:9 EC8-ECB:7A F18-F19:DC F35:DC F37:DC F39:D8 F71:81 F72:82 F74:84
  F7A-F7D:82 F80:82 F82-F83:E6 F84:9 F86-F87:E6 FC6:DC 1037:7 1039-103A:9 108D:DC 135D-135F:E6
  1714-1715:9 1734:9 17D2:9 17DD:E6 18A9:E4 1939:DE 193A:E6 193B:DC 1A17:E6 1A18:DC 1A60:9
  1A75-1A7C:E6 1A7F:DC 1AB0-1AB4:E6 1AB5-1ABA:DC 1ABB-1ABC:E6 1ABD:DC 1ABF-1AC0:DC 1AC1-1AC2:E6
  1AC3-1AC4:DC 1AC5-1AC9:E6 1ACA:DC 1ACB-1ADC:E6 1ADD:DC 1AE0-1AE5:E6 1AE6:DC 1AE7-1AEA:E6 1AEB:EA
  1B34:7 1B44:9 1B6B:E6 1B6C:DC 1B6D-1B73:E6 1BAA-1BAB:9 1BE6:7 1BF2-1BF3:9 1C37:7 1CD0-1CD2:E6
  1CD4:1 1CD5-1CD9:DC 1CDA-1CDB:E6 1CDC-1CDF:DC 1CE0:E6 1CE2-1CE8:1 1CED:DC 1CF4:E6 1CF8-1CF9:E6
  1DC0-1DC1:E6 1DC2:DC 1DC3-1DC9:E6 1DCA:DC 1DCB-1DCC:E6 1DCD:EA 1DCE:D6 1DCF:DC 1DD0:CA
  1DD1-1DF5:E6 1DF6:E8 1DF7-1DF8:E4 1DF9:DC 1DFA:DA 1DFB:E6 1DFC:E9 1DFD:DC 1DFE:E6 1DFF:DC
  20D0-20D1:E6 20D2-20D3:1 20D4-20D7:E6 20D8-20DA:1 20DB-20DC:E6 20E1:E6 20E5-20E6:1 20E7:E6
  20E8:DC 20E9:E6 20EA-20EB:1 20EC-20EF:DC 20F0:E6 2CEF-2CF1:E6 2D7F:9 2DE0-2DFF:E6 302A:DA
  302B:E4 302C:E8 302D:DE 302E-302F:E0 3099-309A:8 A66F:E6 A674-A67D:E6 A69E-A69F:E6 A6F0-A6F1:E6
  A806:9 A82C:9 A8C4:9 A8E0-A8F1:E6 A92B-A92D:DC A953:9 A9B3:7 A9C0:9 AAB0:E6 AAB2-AAB3:E6 AAB4:DC
  AAB7-AAB8:E6 AABE-AABF:E6 AAC1:E6 AAF6:9 ABED:9 FB1E:1A FE20-FE26:E6 FE27-FE2D:DC FE2E-FE2F:E6
  101FD:DC 102E0:DC 10376-1037A:E6 10A0D:DC 10A0F:E6 10A38:E6 10A39:1 10A3A:DC 10A3F:9 10AE5:E6
  10AE6:DC 10D24-10D27:E6 10D69-10D6D:E6 10EAB-10EAC:E6 10EFA-10EFB:DC 10EFD-10EFF:DC
  10F46-10F47:DC 10F48-10F4A:E6 10F4B:DC 10F4C:E6 10F4D-10F50:DC 10F82:E6 10F83:DC 10F84:E6
  10F85:DC 11046:9 11070:9 1107F:9 110B9:9 110BA:7 11100-11102:E6 11133-11134:9 11173:7 111C0:9
  111CA:7 11235:9 11236:7 112E9:7 112EA:9 1133B-1133C:7 1134D:9 11366-11374:E6 113CE-113D0:9
  11442:9 11446:7 1145E:E6 114C2:9 114C3:7 115BF:9 115C0:7 1163F:9 116B6:9 116B7:7 1172B:9 11839:9
  1183A:7 1193D-1193E:9 11943:7 119E0:9 11A34:9 11A47:9 11A99:9 11C3F:9 11D42:7 11D44-11D45:9
  11D97:9 11F41-11F42:9 1612F:9 16AF0-16AF4:1 16B30-16B36:E6 16FF0-16FF1:6 1BC9E:1 1D165-1D166:D8
  1D167-1D169:1 1D16D:E2 1D16E-1D172:D8 1D17B-1D182:DC 1D185-1D189:E6 1D18A-1D18B:DC
  1D1AA-1D1AD:E6 1D242-1D244:E6 1E000-1E08F:E6 1E130-1E136:E6 1E2AE:E6 1E2EC-1E2EF:E6
  1E4EC-1E4ED:E8 1E4EE:DC 1E4EF:E6 1E5EE:E6 1E5EF:DC 1E6E3:E6 1E6E6:E6 1E6EE-1E6EF:E6 1E6F5:E6
  1E8D0-1E8D6:DC 1E944-1E949:E6 1E94A:7"

/-- The class of a mark; everything else has class zero. -/
def combiningClass (c : Char) : Nat :=
  if c.toNat < 0x300 then 0 else (classTable.value? c).getD 0

/-- A character, with those before which it composes, and what they compose to. -/
def pairsOf (text : Text) : List (Char × Char) :=
  (Text.splitOn ',' text).map fun pair =>
    (hexChar (pair.takeWhile (· != '.')), hexChar ((pair.dropWhile (· != '.')).drop 1))

/-- Under each character those before which it composes, and what they compose to. -/
def pairTable : CodeTable (List (Char × Char)) := .ofText pairsOf "
  300:61.E0,65.E8,69.EC,6F.F2,75.F9,FC.1DC,6E.1F9,435.450,438.45D,113.1E15,14D.1E51,77.1E81
  300:E2.1EA7,103.1EB1,EA.1EC1,F4.1ED3,1A1.1EDD,1B0.1EEB,79.1EF3,1F00.1F02,1F01.1F03
  300:1F10.1F12,1F11.1F13,1F20.1F22,1F21.1F23,1F30.1F32,1F31.1F33,1F40.1F42,1F41.1F43
  300:1F50.1F52,1F51.1F53,1F60.1F62,1F61.1F63,3B1.1F70,3B5.1F72,3B7.1F74,3B9.1F76,3BF.1F78
  300:3C5.1F7A,3C9.1F7C,3CA.1FD2,3CB.1FE2
  301:61.E1,65.E9,69.ED,6F.F3,75.FA,79.FD,63.107,6C.13A,6E.144,72.155,73.15B,7A.17A,FC.1D8
  301:67.1F5,E5.1FB,E6.1FD,F8.1FF,3CA.390,3B1.3AC,3B5.3AD,3B7.3AE,3B9.3AF,3CB.3B0,3BF.3CC
  301:3C5.3CD,3C9.3CE,433.453,43A.45C,E7.1E09,113.1E17,EF.1E2F,6B.1E31,6D.1E3F,F5.1E4D
  301:14D.1E53,70.1E55,169.1E79,77.1E83,E2.1EA5,103.1EAF,EA.1EBF,F4.1ED1,1A1.1EDB,1B0.1EE9
  301:1F00.1F04,1F01.1F05,1F10.1F14,1F11.1F15,1F20.1F24,1F21.1F25,1F30.1F34,1F31.1F35
  301:1F40.1F44,1F41.1F45,1F50.1F54,1F51.1F55,1F60.1F64,1F61.1F65
  302:61.E2,65.EA,69.EE,6F.F4,75.FB,63.109,67.11D,68.125,6A.135,73.15D,77.175,79.177,7A.1E91
  302:1EA1.1EAD,1EB9.1EC7,1ECD.1ED9
  303:61.E3,6E.F1,6F.F5,69.129,75.169,76.1E7D,E2.1EAB,103.1EB5,65.1EBD,EA.1EC5,F4.1ED7
  303:1A1.1EE1,1B0.1EEF,79.1EF9
  304:61.101,65.113,69.12B,6F.14D,75.16B,FC.1D6,E4.1DF,227.1E1,E6.1E3,1EB.1ED,F6.22B,F5.22D
  304:22F.231,79.233,438.4E3,443.4EF,67.1E21,1E37.1E39,1E5B.1E5D,3B1.1FB1,3B9.1FD1,3C5.1FE1
  306:61.103,65.115,67.11F,69.12D,6F.14F,75.16D,438.439,443.45E,436.4C2,430.4D1,435.4D7
  306:229.1E1D,1EA1.1EB7,3B1.1FB0,3B9.1FD0,3C5.1FE0
  307:63.10B,65.117,67.121,7A.17C,61.227,6F.22F,62.1E03,64.1E0B,66.1E1F,68.1E23,6D.1E41
  307:6E.1E45,70.1E57,72.1E59,73.1E61,15B.1E65,161.1E67,1E63.1E69,74.1E6B,77.1E87,78.1E8B
  307:79.1E8F,105D2.105C9,105DA.105E4
  308:61.E4,65.EB,69.EF,6F.F6,75.FC,79.FF,3B9.3CA,3C5.3CB,435.451,456.457,430.4D3,4D9.4DB
  308:436.4DD,437.4DF,438.4E5,43E.4E7,4E9.4EB,44D.4ED,443.4F1,447.4F5,44B.4F9,68.1E27
  308:F5.1E4F,16B.1E7B,77.1E85,78.1E8D,74.1E97
  309:61.1EA3,E2.1EA9,103.1EB3,65.1EBB,EA.1EC3,69.1EC9,6F.1ECF,F4.1ED5,1A1.1EDF,75.1EE7
  309:1B0.1EED,79.1EF7 30A:61.E5,75.16F,77.1E98,79.1E99 30B:6F.151,75.171,443.4F3
  30C:63.10D,64.10F,65.11B,6C.13E,6E.148,72.159,73.161,74.165,7A.17E,61.1CE,69.1D0,6F.1D2
  30C:75.1D4,FC.1DA,67.1E7,6B.1E9,292.1EF,6A.1F0,68.21F
  30F:61.201,65.205,69.209,6F.20D,72.211,75.215,475.477
  311:61.203,65.207,69.20B,6F.20F,72.213,75.217
  313:3B1.1F00,3B5.1F10,3B7.1F20,3B9.1F30,3BF.1F40,3C5.1F50,3C9.1F60,3C1.1FE4
  314:3B1.1F01,3B5.1F11,3B7.1F21,3B9.1F31,3BF.1F41,3C5.1F51,3C9.1F61,3C1.1FE5 31B:6F.1A1,75.1B0
  323:62.1E05,64.1E0D,68.1E25,6B.1E33,6C.1E37,6D.1E43,6E.1E47,72.1E5B,73.1E63,74.1E6D
  323:76.1E7F,77.1E89,7A.1E93,61.1EA1,65.1EB9,69.1ECB,6F.1ECD,1A1.1EE3,75.1EE5,1B0.1EF1
  323:79.1EF5 324:75.1E73 325:61.1E01 326:73.219,74.21B
  327:63.E7,67.123,6B.137,6C.13C,6E.146,72.157,73.15F,74.163,65.229,64.1E11,68.1E29
  328:61.105,65.119,69.12F,75.173,6F.1EB 32D:64.1E13,65.1E19,6C.1E3D,6E.1E4B,74.1E71,75.1E77
  32E:68.1E2B 330:65.1E1B,69.1E2D,75.1E75
  331:62.1E07,64.1E0F,6B.1E35,6C.1E3B,6E.1E49,72.1E5F,74.1E6F,7A.1E95,68.1E96
  338:2190.219A,2192.219B,2194.21AE,21D0.21CD,21D4.21CE,21D2.21CF,2203.2204,2208.2209
  338:220B.220C,2223.2224,2225.2226,223C.2241,2243.2244,2245.2247,2248.2249,3D.2260
  338:2261.2262,224D.226D,3C.226E,3E.226F,2264.2270,2265.2271,2272.2274,2273.2275,2276.2278
  338:2277.2279,227A.2280,227B.2281,2282.2284,2283.2285,2286.2288,2287.2289,22A2.22AC
  338:22A8.22AD,22A9.22AE,22AB.22AF,227C.22E0,227D.22E1,2291.22E2,2292.22E3,22B2.22EA
  338:22B3.22EB,22B4.22EC,22B5.22ED
  342:1F00.1F06,1F01.1F07,1F20.1F26,1F21.1F27,1F30.1F36,1F31.1F37,1F50.1F56,1F51.1F57
  342:1F60.1F66,1F61.1F67,3B1.1FB6,3B7.1FC6,3B9.1FD6,3CA.1FD7,3C5.1FE6,3CB.1FE7,3C9.1FF6
  653:627.622 654:627.623,648.624,64A.626,6D5.6C0,6C1.6C2,6D2.6D3 655:627.625
  93C:928.929,930.931,933.934 9BE:9C7.9CB 9D7:9C7.9CC B3E:B47.B4B B56:B47.B48 B57:B47.B4C
  BBE:BC6.BCA,BC7.BCB BD7:B92.B94,BC6.BCC C56:C46.C48 CC2:CC6.CCA CD5:CBF.CC0,CC6.CC7,CCA.CCB
  CD6:CC6.CC8 D3E:D46.D4A,D47.D4B D57:D46.D4C DCA:DD9.DDA,DDC.DDD DCF:DD9.DDC DDF:DD9.DDE
  102E:1025.1026
  1B35:1B05.1B06,1B07.1B08,1B09.1B0A,1B0B.1B0C,1B0D.1B0E,1B11.1B12,1B3A.1B3B,1B3C.1B3D
  1B35:1B3E.1B40,1B3F.1B41,1B42.1B43
  3099:304B.304C,304D.304E,304F.3050,3051.3052,3053.3054,3055.3056,3057.3058,3059.305A
  3099:305B.305C,305D.305E,305F.3060,3061.3062,3064.3065,3066.3067,3068.3069,306F.3070
  3099:3072.3073,3075.3076,3078.3079,307B.307C,3046.3094,309D.309E,30AB.30AC,30AD.30AE
  3099:30AF.30B0,30B1.30B2,30B3.30B4,30B5.30B6,30B7.30B8,30B9.30BA,30BB.30BC,30BD.30BE
  3099:30BF.30C0,30C1.30C2,30C4.30C5,30C6.30C7,30C8.30C9,30CF.30D0,30D2.30D3,30D5.30D6
  3099:30D8.30D9,30DB.30DC,30A6.30F4,30EF.30F7,30F0.30F8,30F1.30F9,30F2.30FA,30FD.30FE
  309A:306F.3071,3072.3074,3075.3077,3078.307A,307B.307D,30CF.30D1,30D2.30D4,30D5.30D7
  309A:30D8.30DA,30DB.30DD 110BA:11099.1109A,1109B.1109C,110A5.110AB 11127:11131.1112E,11132.1112F
  1133E:11347.1134B 11357:11347.1134C 113B8:113C2.113C7 113BB:11384.11385
  113C2:1138B.1138E,113C2.113C5 113C9:11382.11383,11390.11391,113C2.113C8 114B0:114B9.114BC
  114BA:114B9.114BB 114BD:114B9.114BE 115AF:115B8.115BA,115B9.115BB 11930:11935.11938
  1611E:1611E.16121 1611F:1611E.16123,16129.16124,16121.16126,16122.16127
  16120:1611E.16125,16121.16128 16129:1611E.16122 16D67:16D67.16D68,16D63.16D69,16D69.16D6A"

/-! ## Syllables of Hangul -/

/-- The first syllable. -/
def syllableBase : Nat := 0xAC00

/-- The number of syllables. -/
def syllableCount : Nat := 11172

/-- The parts of a syllable, which are two characters. -/
def syllableParts? (c : Char) : Option (Char × Char) :=
  let n := c.toNat - syllableBase
  if c.toNat < syllableBase ∨ syllableCount ≤ n then none
  else if n % 28 = 0 then some (Char.ofNat (0x1100 + n / 588), Char.ofNat (0x1161 + n % 588 / 28))
  else some (Char.ofNat (c.toNat - n % 28), Char.ofNat (0x11A7 + n % 28))

/-- The syllable of two parts. -/
def syllable? (a b : Char) : Option Char :=
  let n := a.toNat - syllableBase
  if 0x1100 ≤ a.toNat ∧ a.toNat < 0x1113 ∧ 0x1161 ≤ b.toNat ∧ b.toNat < 0x1176 then
    some (Char.ofNat (syllableBase + (a.toNat - 0x1100) * 588 + (b.toNat - 0x1161) * 28))
  else if syllableBase ≤ a.toNat ∧ n < syllableCount ∧ n % 28 = 0 ∧
      0x11A7 < b.toNat ∧ b.toNat < 0x11C3 then
    some (Char.ofNat (a.toNat + (b.toNat - 0x11A7)))
  else none

/-! ## The normal form -/

/-- The two characters that a character is composed of. -/
def parts? (c : Char) : Option (Char × Char) :=
  if c.toNat < 0x80 then none
  else match syllableParts? c with
    | some parts => some parts
    | none => pairTable.findSome? fun r =>
      (r.value.find? (·.2 = c)).map fun (a, _) => (a, Char.ofNat r.first)

/-- What two characters compose to. -/
def compose? (a b : Char) : Option Char :=
  if b.toNat < 0x300 then none
  else match syllable? a b with
    | some c => some c
    | none =>
      ((pairTable.filter (·.contains b)).findSome? fun r => r.value.find? (·.1 = a)).map (·.2)

/-- A character taken apart in so many steps. -/
def decomposeIn : Nat → Char → Text
  | 0, c => [c]
  | steps + 1, c =>
    match parts? c with
    | some (a, b) => decomposeIn steps a ++ [b]
    | none => [c]

/-- A character taken apart; no character needs more than three steps. -/
def decompose (c : Char) : Text := decomposeIn 3 c

/-- The marks behind each letter in the order of their classes. -/
def orderMarks (text : Text) : Text :=
  ((text.splitBy fun c d => (combiningClass c == 0) == (combiningClass d == 0)).map fun run =>
    run.mergeSort fun c d => combiningClass c ≤ combiningClass d).flatten

/-- A text as far as it is composed. -/
structure Composer where
  /-- What is done, its last character first. -/
  settled : Text := []
  /-- The letter that the next marks may compose with. -/
  letter : Option Char := none
  /-- The marks behind it that did not, the last one first. -/
  marks : Text := []

namespace Composer

/-- Adds a character. -/
def add (s : Composer) (c : Char) : Composer :=
  let height := combiningClass c
  match s.letter with
  | none => if height = 0 then { s with letter := some c } else { s with settled := c :: s.settled }
  | some letter =>
    let isFree := s.marks.head?.all (combiningClass · < height)
    match (compose? letter c).filter fun _ => isFree with
    | some composed => { s with letter := some composed }
    | none =>
      if height = 0 then ⟨s.marks ++ letter :: s.settled, some c, []⟩
      else { s with marks := c :: s.marks }

/-- The composed text. -/
def text (s : Composer) : Text := (s.marks ++ s.letter.toList ++ s.settled).reverse

end Composer

/-- A text in its normal form. -/
def normalize (text : Text) : Text :=
  ((orderMarks (text.flatMap decompose)).foldl .add ({} : Composer)).text

end Domain

end StyleServer
