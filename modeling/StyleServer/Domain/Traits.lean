/-
  How characters run and join.

  The traits of a character are its direction, the sides on which it joins its
  neighbours in cursive writing, and whether it is a mark.

  Values of the table, each of three letters: the direction, which is `L` or `R`
  of letters that run to the right or the left, `E` or `A` of European or Arabic
  digits, `N` of marks and `O` of others; the sides, which are `L`, `R`, `D` for
  both, `U` and `C` for none, and `T` where neighbours join across; and `m` of a
  mark.  What the table leaves out is `LU-`.  It is about the characters that
  domains hold.
-/
import StyleServer.Text.CodeTable

namespace StyleServer

namespace Domain

/-- The direction in which a character runs. -/
inductive Direction where
  | rightward
  | leftward
  | europeanDigit
  | arabicDigit
  /-- That of the character before it. -/
  | mark
  | neutral
deriving DecidableEq

/-- The sides on which a character joins others. -/
inductive Joining where
  | none
  | left
  | right
  | both
  /-- Its neighbours join across it. -/
  | across
deriving DecidableEq

/-- The traits of a character. -/
structure Traits where
  direction : Direction := .rightward
  joining : Joining := .none
  isMark : Bool := false

namespace Traits

/-- The traits that a text writes. -/
def ofText (text : Text) : Traits where
  direction := match text[0]? with
    | some 'R' => .leftward
    | some 'E' => .europeanDigit
    | some 'A' => .arabicDigit
    | some 'N' => .mark
    | some 'O' => .neutral
    | _ => .rightward
  joining := match text[1]? with
    | some 'L' => .left
    | some 'R' => .right
    | some 'D' => .both
    | some 'T' => .across
    | _ => .none
  isMark := text[2]? = some 'm'

end Traits

/-- The traits of characters outside of ASCII. -/
def traitsTable : CodeTable Traits := .ofText Traits.ofText "
  A1-D7:OU- F7:OU- 2B9-2BA:OU- 2C2-2CF:OU- 2D2-2ED:OU- 2EF-2FF:OU- 300-36F:NTm 375:OU- 3F6:OU-
  483-489:NTm 58A-58F:OU- 591-5BD:NTm 5BE:RU- 5BF:NTm 5C0:RU- 5C1-5C2:NTm 5C3:RU- 5C4-5C5:NTm
  5C6:RU- 5C7:NTm 5D0-5F4:RU- 606-607:OU- 608:RU- 609-60A:OU- 60B:RU- 60C:OU- 60D:RU- 60E-60F:OU-
  610-61A:NTm 61B-61F:RU- 620:RD- 621:RU- 622-625:RR- 626:RD- 627:RR- 628:RD- 629:RR- 62A-62E:RD-
  62F-632:RR- 633-63F:RD- 640:RC- 641-647:RD- 648:RR- 649-64A:RD- 64B-65F:NTm 660-669:AU- 66A:OU-
  66B-66C:AU- 66D:RU- 66E-66F:RD- 670:NTm 671-673:RR- 674:RU- 679-687:RD- 688-699:RR- 69A-6BF:RD-
  6C0:RR- 6C1-6C2:RD- 6C3-6CB:RR- 6CC:RD- 6CD:RR- 6CE:RD- 6CF:RR- 6D0-6D1:RD- 6D2-6D3:RR- 6D4:RU-
  6D5:RR- 6D6-6DC:NTm 6DE:OU- 6DF-6E4:NTm 6E5-6E6:RU- 6E7-6E8:NTm 6E9:OU- 6EA-6ED:NTm 6EE-6EF:RR-
  6F0-6F9:EU- 6FA-6FC:RD- 6FD-6FE:RU- 6FF:RD- 700-70D:RU- 710:RR- 711:NTm 712-714:RD- 715-719:RR-
  71A-71D:RD- 71E:RR- 71F-727:RD- 728:RR- 729:RD- 72A:RR- 72B:RD- 72C:RR- 72D-72E:RD- 72F:RR-
  730-74A:NTm 74D:RR- 74E-758:RD- 759-75B:RR- 75C-76A:RD- 76B-76C:RR- 76D-770:RD- 771:RR- 772:RD-
  773-774:RR- 775-777:RD- 778-779:RR- 77A-77F:RD- 780-7A5:RU- 7A6-7B0:NTm 7B1-7C9:RU- 7CA-7EA:RD-
  7EB-7F3:NTm 7F4-7F5:RU- 7F6-7F9:OU- 7FA:RU- 7FD:NTm 7FE-815:RU- 816-819:NTm 81A:RU- 81B-823:NTm
  824:RU- 825-827:NTm 828:RU- 829-82D:NTm 830-83E:RU- 840:RR- 841-845:RD- 846-847:RR- 848:RD-
  849:RR- 84A-853:RD- 854:RR- 855:RD- 856-858:RR- 859-85B:NTm 85E:RU- 860:RD- 861:RU- 862-865:RD-
  866:RU- 867:RR- 868:RD- 869-882:RR- 883-885:RU- 886:RD- 887-888:RU- 889-88D:RD- 88E:RR- 88F:RD-
  897-89F:NTm 8A0-8A9:RD- 8AA-8AC:RR- 8AD:RU- 8AE:RR- 8AF-8B0:RD- 8B1-8B2:RR- 8B3-8B8:RD- 8B9:RR-
  8BA-8C8:RD- 8C9:RU- 8CA-902:NTm 903:LUm 93A:NTm 93B:LUm 93C:NTm 93E-940:LUm 941-948:NTm
  949-94C:LUm 94D:NTm 94E-94F:LUm 951-957:NTm 962-963:NTm 981:NTm 982-983:LUm 9BC:NTm 9BE-9C0:LUm
  9C1-9C4:NTm 9C7-9CC:LUm 9CD:NTm 9D7:LUm 9E2-9E3:NTm 9F2-9F3:OU- 9FB:OU- 9FE-A02:NTm A03:LUm
  A3C:NTm A3E-A40:LUm A41-A51:NTm A70-A71:NTm A75:NTm A81-A82:NTm A83:LUm ABC:NTm ABE-AC0:LUm
  AC1-AC8:NTm AC9-ACC:LUm ACD:NTm AE2-AE3:NTm AF1:OU- AFA-B01:NTm B02-B03:LUm B3C:NTm B3E:LUm
  B3F:NTm B40:LUm B41-B44:NTm B47-B4C:LUm B4D-B56:NTm B57:LUm B62-B63:NTm B82:NTm BBE-BBF:LUm
  BC0:NTm BC1-BCC:LUm BCD:NTm BD7:LUm BF3-BFA:OU- C00:NTm C01-C03:LUm C04:NTm C3C:NTm C3E-C40:NTm
  C41-C44:LUm C46-C56:NTm C62-C63:NTm C78-C7E:OU- C81:NTm C82-C83:LUm CBC:NTm CBE:LUm CBF:LTm
  CC0-CC4:LUm CC6:LTm CC7-CCB:LUm CCC-CCD:NTm CD5-CD6:LUm CE2-CE3:NTm CF3:LUm D00-D01:NTm
  D02-D03:LUm D3B-D3C:NTm D3E-D40:LUm D41-D44:NTm D46-D4C:LUm D4D:NTm D57:LUm D62-D63:NTm D81:NTm
  D82-D83:LUm DCA:NTm DCF-DD1:LUm DD2-DD6:NTm DD8-DDF:LUm DF2-DF3:LUm E31:NTm E34-E3A:NTm E3F:OU-
  E47-E4E:NTm EB1:NTm EB4-EBC:NTm EC8-ECE:NTm F18-F19:NTm F35:NTm F37:NTm F39:NTm F3A-F3D:OU-
  F3E-F3F:LUm F71-F7E:NTm F7F:LUm F80-F84:NTm F86-F87:NTm F8D-FBC:NTm FC6:NTm 102B-102C:LUm
  102D-1030:NTm 1031:LUm 1032-1037:NTm 1038:LUm 1039-103A:NTm 103B-103C:LUm 103D-103E:NTm
  1056-1057:LUm 1058-1059:NTm 105E-1060:NTm 1062-1064:LUm 1067-106D:LUm 1071-1074:NTm 1082:NTm
  1083-1084:LUm 1085-1086:NTm 1087-108C:LUm 108D:NTm 108F:LUm 109A-109C:LUm 109D:NTm 135D-135F:NTm
  1390-1399:OU- 1400:OU- 169B-169C:OU- 1712-1714:NTm 1715:LUm 1732-1733:NTm 1734:LUm 1752-1753:NTm
  1772-1773:NTm 17B6:LUm 17B7-17BD:NTm 17BE-17C5:LUm 17C6:NTm 17C7-17C8:LUm 17C9-17D3:NTm 17DB:OU-
  17DD:NTm 17F0-1806:OU- 1807:OD- 1808-180A:OU- 1820-1878:LD- 1885-1886:NTm 1887-18A8:LD- 18A9:NTm
  18AA:LD- 1920-1922:NTm 1923-1926:LUm 1927-1928:NTm 1929-1931:LUm 1932:NTm 1933-1938:LUm
  1939-193B:NTm 1940-1945:OU- 19DE-19FF:OU- 1A17-1A18:NTm 1A19-1A1A:LUm 1A1B:NTm 1A55:LUm 1A56:NTm
  1A57:LUm 1A58-1A60:NTm 1A61:LUm 1A62:NTm 1A63-1A64:LUm 1A65-1A6C:NTm 1A6D-1A72:LUm 1A73-1A7F:NTm
  1AB0-1B03:NTm 1B04:LUm 1B34:NTm 1B35:LUm 1B36-1B3A:NTm 1B3B:LUm 1B3C:NTm 1B3D-1B41:LUm 1B42:NTm
  1B43-1B44:LUm 1B4E-1B4F:OU- 1B6B-1B73:NTm 1B7F:OU- 1B80-1B81:NTm 1B82:LUm 1BA1:LUm 1BA2-1BA5:NTm
  1BA6-1BA7:LUm 1BA8-1BA9:NTm 1BAA:LUm 1BAB-1BAD:NTm 1BE6:NTm 1BE7:LUm 1BE8-1BE9:NTm 1BEA-1BEC:LUm
  1BED:NTm 1BEE:LUm 1BEF-1BF1:NTm 1BF2-1BF3:LUm 1C24-1C2B:LUm 1C2C-1C33:NTm 1C34-1C35:LUm
  1C36-1C37:NTm 1CD0-1CD2:NTm 1CD4-1CE0:NTm 1CE1:LUm 1CE2-1CE8:NTm 1CED:NTm 1CF4:NTm 1CF7:LUm
  1CF8-1CF9:NTm 1DC0-1DFF:NTm 200C-20C1:OU- 20D0-20F0:NTm 2104-214D:OU- 218A-2335:OU-
  237B-2394:OU- 2396-26AB:OU- 26AD-27FF:OU- 2900-2BFF:OU- 2CE5-2CEA:OU- 2CEF-2CF1:NTm
  2CF9-2CFF:OU- 2D7F:NTm 2DE0-2DFF:NTm 2E00-3004:OU- 3008-3020:OU- 302A-302D:NTm 302E-302F:LUm
  3030:OU- 3037:OU- 303D-303F:OU- 3099-309A:NTm 30A0:OU- 30FB:OU- 31C0-31E5:OU- 4DC0-4DFF:OU-
  A490-A4C6:OU- A60D-A60F:OU- A66F-A672:NTm A673:OU- A674-A67D:NTm A67E-A67F:OU- A69E-A69F:NTm
  A6F0-A6F1:NTm A700-A721:OU- A788:OU- A802:NTm A806:NTm A80B:NTm A823-A824:LUm A825-A826:NTm
  A827:LUm A828-A82B:OU- A82C:NTm A838-A839:OU- A840-A871:LD- A872:LL- A874-A877:OU- A880-A881:LUm
  A8B4-A8C3:LUm A8C4-A8C5:NTm A8E0-A8F1:NTm A8FF:NTm A926-A92D:NTm A947-A951:NTm A952-A953:LUm
  A980-A982:NTm A983:LUm A9B3:NTm A9B4-A9B5:LUm A9B6-A9B9:NTm A9BA-A9BB:LUm A9BC-A9BD:NTm
  A9BE-A9C0:LUm A9E5:NTm AA29-AA2E:NTm AA2F-AA30:LUm AA31-AA32:NTm AA33-AA34:LUm AA35-AA36:NTm
  AA43:NTm AA4C:NTm AA4D:LUm AA7B:LUm AA7C:NTm AA7D:LUm AAB0:NTm AAB2-AAB4:NTm AAB7-AAB8:NTm
  AABE-AABF:NTm AAC1:NTm AAEB:LUm AAEC-AAED:NTm AAEE-AAEF:LUm AAF5:LUm AAF6:NTm AB6A-AB6B:OU-
  ABE3-ABE4:LUm ABE5:NTm ABE6-ABE7:LUm ABE8:NTm ABE9-ABEA:LUm ABEC:LUm ABED:NTm FB1E:NTm
  FBB2-FBD2:RU- FD3E-FD4F:OU- FD90-FDCE:RU- FDCF-FDFF:OU- FE20-FE2F:NTm FE45-FE46:OU- FE73:RU-
  10101:OU- 10140-1018C:OU- 10190-101A0:OU- 101FD:NTm 102E0:NTm 102E1-102FB:EU- 10376-1037A:NTm
  10800-1091B:RU- 1091F:OU- 10920-10A00:RU- 10A01-10A0F:NTm 10A10-10A35:RU- 10A38-10A3F:NTm
  10A40-10A9F:RU- 10AC0-10AC4:RD- 10AC5:RR- 10AC6:RU- 10AC7:RR- 10AC8:RU- 10AC9-10ACA:RR-
  10ACB-10ACC:RU- 10ACD:RL- 10ACE-10AD2:RR- 10AD3-10AD6:RD- 10AD7:RL- 10AD8-10ADC:RD- 10ADD:RR-
  10ADE-10AE0:RD- 10AE1:RR- 10AE2-10AE3:RU- 10AE4:RR- 10AE5-10AE6:NTm 10AEB-10AEE:RD- 10AEF:RR-
  10AF0-10B35:RU- 10B39-10B3F:OU- 10B40-10B7F:RU- 10B80:RD- 10B81:RR- 10B82:RD- 10B83-10B85:RR-
  10B86-10B88:RD- 10B89:RR- 10B8A-10B8B:RD- 10B8C:RR- 10B8D:RD- 10B8E-10B8F:RR- 10B90:RD-
  10B91:RR- 10B99-10B9C:RU- 10BA9-10BAC:RR- 10BAD-10BAE:RD- 10BAF-10CFF:RU- 10D00:RL-
  10D01-10D21:RD- 10D22:RR- 10D23:RD- 10D24-10D27:NTm 10D30-10D39:AU- 10D40-10D4F:RU-
  10D69-10D6D:NTm 10D6E-10D8F:RU- 10E60-10E7E:AU- 10E80-10EA9:RU- 10EAB-10EAC:NTm 10EAD-10EB1:RU-
  10EC2:RR- 10EC3-10EC4:RD- 10EC5:RU- 10EC6-10EC7:RD- 10ED0-10ED8:RU- 10EFA-10EFF:NTm
  10F00-10F27:RU- 10F30-10F32:RD- 10F33:RR- 10F34-10F44:RD- 10F45:RU- 10F46-10F50:NTm
  10F51-10F53:RD- 10F54:RR- 10F55-10F59:RU- 10F70-10F73:RD- 10F74-10F75:RR- 10F76-10F81:RD-
  10F82-10F85:NTm 10F86-10F89:RU- 10FB0:RD- 10FB1:RU- 10FB2-10FB3:RD- 10FB4-10FB6:RR- 10FB7:RU-
  10FB8:RD- 10FB9-10FBA:RR- 10FBB-10FBC:RD- 10FBD:RR- 10FBE-10FBF:RD- 10FC0:RU- 10FC1:RD-
  10FC2-10FC3:RR- 10FC4:RD- 10FC5-10FC8:RU- 10FC9:RR- 10FCA:RD- 10FCB:RL- 10FE0-10FF6:RU-
  11000:LUm 11001:NTm 11002:LUm 11038-11046:NTm 11052-11065:OU- 11070:NTm 11073-11074:NTm
  1107F-11081:NTm 11082:LUm 110B0-110B2:LUm 110B3-110B6:NTm 110B7-110B8:LUm 110B9-110BA:NTm
  110C2:NTm 11100-11102:NTm 11127-1112B:NTm 1112C:LUm 1112D-11134:NTm 11145-11146:LUm 11173:NTm
  11180-11181:NTm 11182:LUm 111B3-111B5:LUm 111B6-111BE:NTm 111BF-111C0:LUm 111C9-111CC:NTm
  111CE:LUm 111CF:NTm 1122C-1122E:LUm 1122F-11231:NTm 11232-11233:LUm 11234:NTm 11235:LUm
  11236-11237:NTm 1123E:NTm 11241:NTm 112DF:NTm 112E0-112E2:LUm 112E3-112EA:NTm 11300-11301:NTm
  11302-11303:LUm 1133B-1133C:NTm 1133E-1133F:LUm 11340:NTm 11341-1134D:LUm 11357:LUm
  11362-11363:LUm 11366-11374:NTm 113B8-113BA:LUm 113BB-113C0:NTm 113C2-113CD:LUm 113CE:NTm
  113CF:LUm 113D0:NTm 113D2:NTm 113D4-113D8:OU- 113E1-113E2:NTm 11435-11437:LUm 11438-1143F:NTm
  11440-11441:LUm 11442-11444:NTm 11445:LUm 11446:NTm 1145E:NTm 114B0-114B2:LUm 114B3-114B8:NTm
  114B9:LUm 114BA:NTm 114BB-114BE:LUm 114BF-114C0:NTm 114C1:LUm 114C2-114C3:NTm 115AF-115B1:LUm
  115B2-115B5:NTm 115B8-115BB:LUm 115BC-115BD:NTm 115BE:LUm 115BF-115C0:NTm 115DC-115DD:NTm
  11630-11632:LUm 11633-1163A:NTm 1163B-1163C:LUm 1163D:NTm 1163E:LUm 1163F-11640:NTm
  11660-1166C:OU- 116AB:NTm 116AC:LUm 116AD:NTm 116AE-116AF:LUm 116B0-116B5:NTm 116B6:LUm
  116B7:NTm 1171D:NTm 1171E:NUm 1171F:NTm 11720-11721:LUm 11722-11725:NTm 11726:LUm
  11727-1172B:NTm 1182C-1182E:LUm 1182F-11837:NTm 11838:LUm 11839-1183A:NTm 11930-11938:LUm
  1193B-1193C:NTm 1193D:LUm 1193E:NTm 11940:LUm 11942:LUm 11943:NTm 119D1-119D3:LUm
  119D4-119DB:NTm 119DC-119DF:LUm 119E0:NTm 119E4:LUm 11A01-11A06:NTm 11A07-11A08:LTm
  11A09-11A0A:NTm 11A33-11A38:NTm 11A39:LUm 11A3B-11A3E:NTm 11A47:NTm 11A51-11A56:NTm
  11A57-11A58:LUm 11A59-11A5B:NTm 11A8A-11A96:NTm 11A97:LUm 11A98-11A99:NTm 11B60:NTm 11B61:LUm
  11B62-11B64:NTm 11B65:LUm 11B66:NTm 11B67:LUm 11BE1:OU- 11C2F:LUm 11C30-11C3D:NTm 11C3E:LUm
  11C3F:LTm 11C92-11CA7:NTm 11CA9:LUm 11CAA-11CB0:NTm 11CB1:LUm 11CB2-11CB3:NTm 11CB4:LUm
  11CB5-11CB6:NTm 11D31-11D45:NTm 11D47:NTm 11D8A-11D8E:LUm 11D90-11D91:NTm 11D93-11D94:LUm
  11D95:NTm 11D96:LUm 11D97:NTm 11EF3-11EF4:NTm 11EF5-11EF6:LUm 11F00-11F01:NTm 11F03:LUm
  11F34-11F35:LUm 11F36-11F3A:NTm 11F3E-11F3F:LUm 11F40:NTm 11F41:LUm 11F42:NTm 11F5A:NTm
  11FD5-11FF1:OU- 13440:NTm 13447-13455:NTm 1611E-16129:NTm 1612A-1612C:LUm 1612D-1612F:NTm
  16AF0-16AF4:NTm 16B30-16B36:NTm 16D6D-16D6F:OU- 16F4F:NTm 16F51-16F87:LUm 16F8F-16F92:NTm
  16FE2:OU- 16FE4:NTm 16FF0-16FF1:LUm 1BC9D-1BC9E:NTm 1CC00-1CEF0:OU- 1CF00-1CF46:NTm
  1D165-1D166:LUm 1D167-1D169:NTm 1D16D-1D172:LUm 1D17B-1D182:NTm 1D185-1D18B:NTm 1D1AA-1D1AD:NTm
  1D1E9-1D241:OU- 1D242-1D244:NTm 1D245:OU- 1D300-1D356:OU- 1DA00-1DA36:NTm 1DA3B-1DA6C:NTm
  1DA75:NTm 1DA84:NTm 1DA9B-1DAAF:NTm 1E000-1E08F:NTm 1E130-1E136:NTm 1E2AE:NTm 1E2EC-1E2EF:NTm
  1E2FF:OU- 1E4EC-1E4EF:NTm 1E5EE-1E5EF:NTm 1E5FF:OU- 1E6E3:NTm 1E6E6:NTm 1E6EE-1E6EF:NTm
  1E6F5:NTm 1E800-1E8CF:RU- 1E8D0-1E8D6:NTm 1E922-1E943:RD- 1E944-1E94A:NTm 1E94B:RT-
  1E950-1ED3D:RU- 1EEF0-1F12F:OU- 1F16D-1F16F:OU- 1F1AD:OU- 1F260-1FBFA:OU-"

/-- The traits of a character. -/
def traits (c : Char) : Traits :=
  if 0x80 ≤ c.toNat then (traitsTable.value? c).getD {}
  else if c.isAlpha then {}
  else if c.isDigit then { direction := .europeanDigit }
  else { direction := .neutral }

end Domain

end StyleServer
