/-
  Protobuf.Text.Identifier — which characters may begin and continue an identifier.

  Unicode's `XID_Start` and `XID_Continue` (version 17, and U+A7DD of version 18). The tables hold
  code points from 0x80 on; ASCII is told by rule. A character that may begin an identifier may
  also continue one, so the second table lists only those that may not begin one.
-/

import Protobuf.Text.Range

namespace Protobuf.Text

def startRanges : List (Nat × Nat) := [
  (0xAA, 0), (0xB5, 0), (0xBA, 0), (0xC0, 22), (0xD8, 30), (0xF8, 457), (0x2C6, 11), (0x2E0, 4),
  (0x2EC, 0), (0x2EE, 0), (0x370, 4), (0x376, 1), (0x37B, 2), (0x37F, 0), (0x386, 0), (0x388, 2),
  (0x38C, 0), (0x38E, 19), (0x3A3, 82), (0x3F7, 138), (0x48A, 165), (0x531, 37), (0x559, 0),
  (0x560, 40), (0x5D0, 26), (0x5EF, 3), (0x620, 42), (0x66E, 1), (0x671, 98), (0x6D5, 0), (0x6E5, 1),
  (0x6EE, 1), (0x6FA, 2), (0x6FF, 0), (0x710, 0), (0x712, 29), (0x74D, 88), (0x7B1, 0), (0x7CA, 32),
  (0x7F4, 1), (0x7FA, 0), (0x800, 21), (0x81A, 0), (0x824, 0), (0x828, 0), (0x840, 24), (0x860, 10),
  (0x870, 23), (0x889, 6), (0x8A0, 41), (0x904, 53), (0x93D, 0), (0x950, 0), (0x958, 9), (0x971, 15),
  (0x985, 7), (0x98F, 1), (0x993, 21), (0x9AA, 6), (0x9B2, 0), (0x9B6, 3), (0x9BD, 0), (0x9CE, 0),
  (0x9DC, 1), (0x9DF, 2), (0x9F0, 1), (0x9FC, 0), (0xA05, 5), (0xA0F, 1), (0xA13, 21), (0xA2A, 6),
  (0xA32, 1), (0xA35, 1), (0xA38, 1), (0xA59, 3), (0xA5E, 0), (0xA72, 2), (0xA85, 8), (0xA8F, 2),
  (0xA93, 21), (0xAAA, 6), (0xAB2, 1), (0xAB5, 4), (0xABD, 0), (0xAD0, 0), (0xAE0, 1), (0xAF9, 0),
  (0xB05, 7), (0xB0F, 1), (0xB13, 21), (0xB2A, 6), (0xB32, 1), (0xB35, 4), (0xB3D, 0), (0xB5C, 1),
  (0xB5F, 2), (0xB71, 0), (0xB83, 0), (0xB85, 5), (0xB8E, 2), (0xB92, 3), (0xB99, 1), (0xB9C, 0),
  (0xB9E, 1), (0xBA3, 1), (0xBA8, 2), (0xBAE, 11), (0xBD0, 0), (0xC05, 7), (0xC0E, 2), (0xC12, 22),
  (0xC2A, 15), (0xC3D, 0), (0xC58, 2), (0xC5C, 1), (0xC60, 1), (0xC80, 0), (0xC85, 7), (0xC8E, 2),
  (0xC92, 22), (0xCAA, 9), (0xCB5, 4), (0xCBD, 0), (0xCDC, 2), (0xCE0, 1), (0xCF1, 1), (0xD04, 8),
  (0xD0E, 2), (0xD12, 40), (0xD3D, 0), (0xD4E, 0), (0xD54, 2), (0xD5F, 2), (0xD7A, 5), (0xD85, 17),
  (0xD9A, 23), (0xDB3, 8), (0xDBD, 0), (0xDC0, 6), (0xE01, 47), (0xE32, 0), (0xE40, 6), (0xE81, 1),
  (0xE84, 0), (0xE86, 4), (0xE8C, 23), (0xEA5, 0), (0xEA7, 9), (0xEB2, 0), (0xEBD, 0), (0xEC0, 4),
  (0xEC6, 0), (0xEDC, 3), (0xF00, 0), (0xF40, 7), (0xF49, 35), (0xF88, 4), (0x1000, 42), (0x103F, 0),
  (0x1050, 5), (0x105A, 3), (0x1061, 0), (0x1065, 1), (0x106E, 2), (0x1075, 12), (0x108E, 0),
  (0x10A0, 37), (0x10C7, 0), (0x10CD, 0), (0x10D0, 42), (0x10FC, 332), (0x124A, 3), (0x1250, 6),
  (0x1258, 0), (0x125A, 3), (0x1260, 40), (0x128A, 3), (0x1290, 32), (0x12B2, 3), (0x12B8, 6),
  (0x12C0, 0), (0x12C2, 3), (0x12C8, 14), (0x12D8, 56), (0x1312, 3), (0x1318, 66), (0x1380, 15),
  (0x13A0, 85), (0x13F8, 5), (0x1401, 619), (0x166F, 16), (0x1681, 25), (0x16A0, 74), (0x16EE, 10),
  (0x1700, 17), (0x171F, 18), (0x1740, 17), (0x1760, 12), (0x176E, 2), (0x1780, 51), (0x17D7, 0),
  (0x17DC, 0), (0x1820, 88), (0x1880, 40), (0x18AA, 0), (0x18B0, 69), (0x1900, 30), (0x1950, 29),
  (0x1970, 4), (0x1980, 43), (0x19B0, 25), (0x1A00, 22), (0x1A20, 52), (0x1AA7, 0), (0x1B05, 46),
  (0x1B45, 7), (0x1B83, 29), (0x1BAE, 1), (0x1BBA, 43), (0x1C00, 35), (0x1C4D, 2), (0x1C5A, 35),
  (0x1C80, 10), (0x1C90, 42), (0x1CBD, 2), (0x1CE9, 3), (0x1CEE, 5), (0x1CF5, 1), (0x1CFA, 0),
  (0x1D00, 191), (0x1E00, 277), (0x1F18, 5), (0x1F20, 37), (0x1F48, 5), (0x1F50, 7), (0x1F59, 0),
  (0x1F5B, 0), (0x1F5D, 0), (0x1F5F, 30), (0x1F80, 52), (0x1FB6, 6), (0x1FBE, 0), (0x1FC2, 2),
  (0x1FC6, 6), (0x1FD0, 3), (0x1FD6, 5), (0x1FE0, 12), (0x1FF2, 2), (0x1FF6, 6), (0x2071, 0),
  (0x207F, 0), (0x2090, 12), (0x2102, 0), (0x2107, 0), (0x210A, 9), (0x2115, 0), (0x2118, 5),
  (0x2124, 0), (0x2126, 0), (0x2128, 0), (0x212A, 15), (0x213C, 3), (0x2145, 4), (0x214E, 0),
  (0x2160, 40), (0x2C00, 228), (0x2CEB, 3), (0x2CF2, 1), (0x2D00, 37), (0x2D27, 0), (0x2D2D, 0),
  (0x2D30, 55), (0x2D6F, 0), (0x2D80, 22), (0x2DA0, 6), (0x2DA8, 6), (0x2DB0, 6), (0x2DB8, 6),
  (0x2DC0, 6), (0x2DC8, 6), (0x2DD0, 6), (0x2DD8, 6), (0x3005, 2), (0x3021, 8), (0x3031, 4),
  (0x3038, 4), (0x3041, 85), (0x309D, 2), (0x30A1, 89), (0x30FC, 3), (0x3105, 42), (0x3131, 93),
  (0x31A0, 31), (0x31F0, 15), (0x3400, 6591), (0x4E00, 22156), (0xA4D0, 45), (0xA500, 268),
  (0xA610, 15), (0xA62A, 1), (0xA640, 46), (0xA67F, 30), (0xA6A0, 79), (0xA717, 8), (0xA722, 102),
  (0xA78B, 82), (0xA7F1, 16), (0xA803, 2), (0xA807, 3), (0xA80C, 22), (0xA840, 51), (0xA882, 49),
  (0xA8F2, 5), (0xA8FB, 0), (0xA8FD, 1), (0xA90A, 27), (0xA930, 22), (0xA960, 28), (0xA984, 46),
  (0xA9CF, 0), (0xA9E0, 4), (0xA9E6, 9), (0xA9FA, 4), (0xAA00, 40), (0xAA40, 2), (0xAA44, 7),
  (0xAA60, 22), (0xAA7A, 0), (0xAA7E, 49), (0xAAB1, 0), (0xAAB5, 1), (0xAAB9, 4), (0xAAC0, 0),
  (0xAAC2, 0), (0xAADB, 2), (0xAAE0, 10), (0xAAF2, 2), (0xAB01, 5), (0xAB09, 5), (0xAB11, 5),
  (0xAB20, 6), (0xAB28, 6), (0xAB30, 42), (0xAB5C, 13), (0xAB70, 114), (0xAC00, 11171), (0xD7B0, 22),
  (0xD7CB, 48), (0xF900, 365), (0xFA70, 105), (0xFB00, 6), (0xFB13, 4), (0xFB1D, 0), (0xFB1F, 9),
  (0xFB2A, 12), (0xFB38, 4), (0xFB3E, 0), (0xFB40, 1), (0xFB43, 1), (0xFB46, 107), (0xFBD3, 138),
  (0xFC64, 217), (0xFD50, 63), (0xFD92, 53), (0xFDF0, 9), (0xFE71, 0), (0xFE73, 0), (0xFE77, 0),
  (0xFE79, 0), (0xFE7B, 0), (0xFE7D, 0), (0xFE7F, 125), (0xFF21, 25), (0xFF41, 25), (0xFF66, 55),
  (0xFFA0, 30), (0xFFC2, 5), (0xFFCA, 5), (0xFFD2, 5), (0xFFDA, 2), (0x10000, 11), (0x1000D, 25),
  (0x10028, 18), (0x1003C, 1), (0x1003F, 14), (0x10050, 13), (0x10080, 122), (0x10140, 52),
  (0x10280, 28), (0x102A0, 48), (0x10300, 31), (0x1032D, 29), (0x10350, 37), (0x10380, 29),
  (0x103A0, 35), (0x103C8, 7), (0x103D1, 4), (0x10400, 157), (0x104B0, 35), (0x104D8, 35),
  (0x10500, 39), (0x10530, 51), (0x10570, 10), (0x1057C, 14), (0x1058C, 6), (0x10594, 1),
  (0x10597, 10), (0x105A3, 14), (0x105B3, 6), (0x105BB, 1), (0x105C0, 51), (0x10600, 310),
  (0x10740, 21), (0x10760, 7), (0x10780, 5), (0x10787, 41), (0x107B2, 8), (0x10800, 5), (0x10808, 0),
  (0x1080A, 43), (0x10837, 1), (0x1083C, 0), (0x1083F, 22), (0x10860, 22), (0x10880, 30),
  (0x108E0, 18), (0x108F4, 1), (0x10900, 21), (0x10920, 25), (0x10940, 25), (0x10980, 55),
  (0x109BE, 1), (0x10A00, 0), (0x10A10, 3), (0x10A15, 2), (0x10A19, 28), (0x10A60, 28), (0x10A80, 28),
  (0x10AC0, 7), (0x10AC9, 27), (0x10B00, 53), (0x10B40, 21), (0x10B60, 18), (0x10B80, 17),
  (0x10C00, 72), (0x10C80, 50), (0x10CC0, 50), (0x10D00, 35), (0x10D4A, 27), (0x10D6F, 22),
  (0x10E80, 41), (0x10EB0, 1), (0x10EC2, 5), (0x10F00, 28), (0x10F27, 0), (0x10F30, 21),
  (0x10F70, 17), (0x10FB0, 20), (0x10FE0, 22), (0x11003, 52), (0x11071, 1), (0x11075, 0),
  (0x11083, 44), (0x110D0, 24), (0x11103, 35), (0x11144, 0), (0x11147, 0), (0x11150, 34),
  (0x11176, 0), (0x11183, 47), (0x111C1, 3), (0x111DA, 0), (0x111DC, 0), (0x11200, 17), (0x11213, 24),
  (0x1123F, 1), (0x11280, 6), (0x11288, 0), (0x1128A, 3), (0x1128F, 14), (0x1129F, 9), (0x112B0, 46),
  (0x11305, 7), (0x1130F, 1), (0x11313, 21), (0x1132A, 6), (0x11332, 1), (0x11335, 4), (0x1133D, 0),
  (0x11350, 0), (0x1135D, 4), (0x11380, 9), (0x1138B, 0), (0x1138E, 0), (0x11390, 37), (0x113B7, 0),
  (0x113D1, 0), (0x113D3, 0), (0x11400, 52), (0x11447, 3), (0x1145F, 2), (0x11480, 47), (0x114C4, 1),
  (0x114C7, 0), (0x11580, 46), (0x115D8, 3), (0x11600, 47), (0x11644, 0), (0x11680, 42), (0x116B8, 0),
  (0x11700, 26), (0x11740, 6), (0x11800, 43), (0x118A0, 63), (0x118FF, 7), (0x11909, 0), (0x1190C, 7),
  (0x11915, 1), (0x11918, 23), (0x1193F, 0), (0x11941, 0), (0x119A0, 7), (0x119AA, 38), (0x119E1, 0),
  (0x119E3, 0), (0x11A00, 0), (0x11A0B, 39), (0x11A3A, 0), (0x11A50, 0), (0x11A5C, 45), (0x11A9D, 0),
  (0x11AB0, 72), (0x11BC0, 32), (0x11C00, 8), (0x11C0A, 36), (0x11C40, 0), (0x11C72, 29),
  (0x11D00, 6), (0x11D08, 1), (0x11D0B, 37), (0x11D46, 0), (0x11D60, 5), (0x11D67, 1), (0x11D6A, 31),
  (0x11D98, 0), (0x11DB0, 43), (0x11EE0, 18), (0x11F02, 0), (0x11F04, 12), (0x11F12, 33),
  (0x11FB0, 0), (0x12000, 921), (0x12400, 110), (0x12480, 195), (0x12F90, 96), (0x13000, 1071),
  (0x13441, 5), (0x13460, 3994), (0x14400, 582), (0x16100, 29), (0x16800, 568), (0x16A40, 30),
  (0x16A70, 78), (0x16AD0, 29), (0x16B00, 47), (0x16B40, 3), (0x16B63, 20), (0x16B7D, 18),
  (0x16D40, 44), (0x16E40, 63), (0x16EA0, 24), (0x16EBB, 24), (0x16F00, 74), (0x16F50, 0),
  (0x16F93, 12), (0x16FE0, 1), (0x16FE3, 0), (0x16FF2, 4), (0x17000, 7381), (0x18CFF, 31),
  (0x18D80, 114), (0x1AFF0, 3), (0x1AFF5, 6), (0x1AFFD, 1), (0x1B000, 290), (0x1B132, 0),
  (0x1B150, 2), (0x1B155, 0), (0x1B164, 3), (0x1B170, 395), (0x1BC00, 106), (0x1BC70, 12),
  (0x1BC80, 8), (0x1BC90, 9), (0x1D400, 84), (0x1D456, 70), (0x1D49E, 1), (0x1D4A2, 0), (0x1D4A5, 1),
  (0x1D4A9, 3), (0x1D4AE, 11), (0x1D4BB, 0), (0x1D4BD, 6), (0x1D4C5, 64), (0x1D507, 3), (0x1D50D, 7),
  (0x1D516, 6), (0x1D51E, 27), (0x1D53B, 3), (0x1D540, 4), (0x1D546, 0), (0x1D54A, 6), (0x1D552, 339),
  (0x1D6A8, 24), (0x1D6C2, 24), (0x1D6DC, 30), (0x1D6FC, 24), (0x1D716, 30), (0x1D736, 24),
  (0x1D750, 30), (0x1D770, 24), (0x1D78A, 30), (0x1D7AA, 24), (0x1D7C4, 7), (0x1DF00, 30),
  (0x1DF25, 5), (0x1E030, 61), (0x1E100, 44), (0x1E137, 6), (0x1E14E, 0), (0x1E290, 29),
  (0x1E2C0, 43), (0x1E4D0, 27), (0x1E5D0, 29), (0x1E5F0, 0), (0x1E6C0, 30), (0x1E6E0, 2),
  (0x1E6E4, 1), (0x1E6E7, 6), (0x1E6F0, 4), (0x1E6FE, 1), (0x1E7E0, 6), (0x1E7E8, 3), (0x1E7ED, 1),
  (0x1E7F0, 14), (0x1E800, 196), (0x1E900, 67), (0x1E94B, 0), (0x1EE00, 3), (0x1EE05, 26),
  (0x1EE21, 1), (0x1EE24, 0), (0x1EE27, 0), (0x1EE29, 9), (0x1EE34, 3), (0x1EE39, 0), (0x1EE3B, 0),
  (0x1EE42, 0), (0x1EE47, 0), (0x1EE49, 0), (0x1EE4B, 0), (0x1EE4D, 2), (0x1EE51, 1), (0x1EE54, 0),
  (0x1EE57, 0), (0x1EE59, 0), (0x1EE5B, 0), (0x1EE5D, 0), (0x1EE5F, 0), (0x1EE61, 1), (0x1EE64, 0),
  (0x1EE67, 3), (0x1EE6C, 6), (0x1EE74, 3), (0x1EE79, 3), (0x1EE7E, 0), (0x1EE80, 9), (0x1EE8B, 16),
  (0x1EEA1, 2), (0x1EEA5, 4), (0x1EEAB, 16), (0x20000, 42719), (0x2A700, 4381), (0x2B820, 5773),
  (0x2CEB0, 7472), (0x2EBF0, 621), (0x2F800, 541), (0x30000, 4938), (0x31350, 8489)]

def continueRanges : List (Nat × Nat) := [
  (0xB7, 0), (0x300, 111), (0x387, 0), (0x483, 4), (0x591, 44), (0x5BF, 0), (0x5C1, 1), (0x5C4, 1),
  (0x5C7, 0), (0x610, 10), (0x64B, 30), (0x670, 0), (0x6D6, 6), (0x6DF, 5), (0x6E7, 1), (0x6EA, 3),
  (0x6F0, 9), (0x711, 0), (0x730, 26), (0x7A6, 10), (0x7C0, 9), (0x7EB, 8), (0x7FD, 0), (0x816, 3),
  (0x81B, 8), (0x825, 2), (0x829, 4), (0x859, 2), (0x897, 8), (0x8CA, 23), (0x8E3, 32), (0x93A, 2),
  (0x93E, 17), (0x951, 6), (0x962, 1), (0x966, 9), (0x981, 2), (0x9BC, 0), (0x9BE, 6), (0x9C7, 1),
  (0x9CB, 2), (0x9D7, 0), (0x9E2, 1), (0x9E6, 9), (0x9FE, 0), (0xA01, 2), (0xA3C, 0), (0xA3E, 4),
  (0xA47, 1), (0xA4B, 2), (0xA51, 0), (0xA66, 11), (0xA75, 0), (0xA81, 2), (0xABC, 0), (0xABE, 7),
  (0xAC7, 2), (0xACB, 2), (0xAE2, 1), (0xAE6, 9), (0xAFA, 5), (0xB01, 2), (0xB3C, 0), (0xB3E, 6),
  (0xB47, 1), (0xB4B, 2), (0xB55, 2), (0xB62, 1), (0xB66, 9), (0xB82, 0), (0xBBE, 4), (0xBC6, 2),
  (0xBCA, 3), (0xBD7, 0), (0xBE6, 9), (0xC00, 4), (0xC3C, 0), (0xC3E, 6), (0xC46, 2), (0xC4A, 3),
  (0xC55, 1), (0xC62, 1), (0xC66, 9), (0xC81, 2), (0xCBC, 0), (0xCBE, 6), (0xCC6, 2), (0xCCA, 3),
  (0xCD5, 1), (0xCE2, 1), (0xCE6, 9), (0xCF3, 0), (0xD00, 3), (0xD3B, 1), (0xD3E, 6), (0xD46, 2),
  (0xD4A, 3), (0xD57, 0), (0xD62, 1), (0xD66, 9), (0xD81, 2), (0xDCA, 0), (0xDCF, 5), (0xDD6, 0),
  (0xDD8, 7), (0xDE6, 9), (0xDF2, 1), (0xE31, 0), (0xE33, 7), (0xE47, 7), (0xE50, 9), (0xEB1, 0),
  (0xEB3, 9), (0xEC8, 6), (0xED0, 9), (0xF18, 1), (0xF20, 9), (0xF35, 0), (0xF37, 0), (0xF39, 0),
  (0xF3E, 1), (0xF71, 19), (0xF86, 1), (0xF8D, 10), (0xF99, 35), (0xFC6, 0), (0x102B, 19),
  (0x1040, 9), (0x1056, 3), (0x105E, 2), (0x1062, 2), (0x1067, 6), (0x1071, 3), (0x1082, 11),
  (0x108F, 14), (0x135D, 2), (0x1369, 8), (0x1712, 3), (0x1732, 2), (0x1752, 1), (0x1772, 1),
  (0x17B4, 31), (0x17DD, 0), (0x17E0, 9), (0x180B, 2), (0x180F, 10), (0x18A9, 0), (0x1920, 11),
  (0x1930, 11), (0x1946, 9), (0x19D0, 10), (0x1A17, 4), (0x1A55, 9), (0x1A60, 28), (0x1A7F, 10),
  (0x1A90, 9), (0x1AB0, 13), (0x1ABF, 30), (0x1AE0, 11), (0x1B00, 4), (0x1B34, 16), (0x1B50, 9),
  (0x1B6B, 8), (0x1B80, 2), (0x1BA1, 12), (0x1BB0, 9), (0x1BE6, 13), (0x1C24, 19), (0x1C40, 9),
  (0x1C50, 9), (0x1CD0, 2), (0x1CD4, 20), (0x1CED, 0), (0x1CF4, 0), (0x1CF7, 2), (0x1DC0, 63),
  (0x200C, 1), (0x203F, 1), (0x2054, 0), (0x20D0, 12), (0x20E1, 0), (0x20E5, 11), (0x2CEF, 2),
  (0x2D7F, 0), (0x2DE0, 31), (0x302A, 5), (0x3099, 1), (0x30FB, 0), (0xA620, 9), (0xA66F, 0),
  (0xA674, 9), (0xA69E, 1), (0xA6F0, 1), (0xA802, 0), (0xA806, 0), (0xA80B, 0), (0xA823, 4),
  (0xA82C, 0), (0xA880, 1), (0xA8B4, 17), (0xA8D0, 9), (0xA8E0, 17), (0xA8FF, 10), (0xA926, 7),
  (0xA947, 12), (0xA980, 3), (0xA9B3, 13), (0xA9D0, 9), (0xA9E5, 0), (0xA9F0, 9), (0xAA29, 13),
  (0xAA43, 0), (0xAA4C, 1), (0xAA50, 9), (0xAA7B, 2), (0xAAB0, 0), (0xAAB2, 2), (0xAAB7, 1),
  (0xAABE, 1), (0xAAC1, 0), (0xAAEB, 4), (0xAAF5, 1), (0xABE3, 7), (0xABEC, 1), (0xABF0, 9),
  (0xFB1E, 0), (0xFE00, 15), (0xFE20, 15), (0xFE33, 1), (0xFE4D, 2), (0xFF10, 9), (0xFF3F, 0),
  (0xFF65, 0), (0xFF9E, 1), (0x101FD, 0), (0x102E0, 0), (0x10376, 4), (0x104A0, 9), (0x10A01, 2),
  (0x10A05, 1), (0x10A0C, 3), (0x10A38, 2), (0x10A3F, 0), (0x10AE5, 1), (0x10D24, 3), (0x10D30, 9),
  (0x10D40, 9), (0x10D69, 4), (0x10EAB, 1), (0x10EFA, 5), (0x10F46, 10), (0x10F82, 3), (0x11000, 2),
  (0x11038, 14), (0x11066, 10), (0x11073, 1), (0x1107F, 3), (0x110B0, 10), (0x110C2, 0), (0x110F0, 9),
  (0x11100, 2), (0x11127, 13), (0x11136, 9), (0x11145, 1), (0x11173, 0), (0x11180, 2), (0x111B3, 13),
  (0x111C9, 3), (0x111CE, 11), (0x1122C, 11), (0x1123E, 0), (0x11241, 0), (0x112DF, 11), (0x112F0, 9),
  (0x11300, 3), (0x1133B, 1), (0x1133E, 6), (0x11347, 1), (0x1134B, 2), (0x11357, 0), (0x11362, 1),
  (0x11366, 6), (0x11370, 4), (0x113B8, 8), (0x113C2, 0), (0x113C5, 0), (0x113C7, 3), (0x113CC, 4),
  (0x113D2, 0), (0x113E1, 1), (0x11435, 17), (0x11450, 9), (0x1145E, 0), (0x114B0, 19), (0x114D0, 9),
  (0x115AF, 6), (0x115B8, 8), (0x115DC, 1), (0x11630, 16), (0x11650, 9), (0x116AB, 12), (0x116C0, 9),
  (0x116D0, 19), (0x1171D, 14), (0x11730, 9), (0x1182C, 14), (0x118E0, 9), (0x11930, 5), (0x11937, 1),
  (0x1193B, 3), (0x11940, 0), (0x11942, 1), (0x11950, 9), (0x119D1, 6), (0x119DA, 6), (0x119E4, 0),
  (0x11A01, 9), (0x11A33, 6), (0x11A3B, 3), (0x11A47, 0), (0x11A51, 10), (0x11A8A, 15), (0x11B60, 7),
  (0x11BF0, 9), (0x11C2F, 7), (0x11C38, 7), (0x11C50, 9), (0x11C92, 21), (0x11CA9, 13), (0x11D31, 5),
  (0x11D3A, 0), (0x11D3C, 1), (0x11D3F, 6), (0x11D47, 0), (0x11D50, 9), (0x11D8A, 4), (0x11D90, 1),
  (0x11D93, 4), (0x11DA0, 9), (0x11DE0, 9), (0x11EF3, 3), (0x11F00, 1), (0x11F03, 0), (0x11F34, 6),
  (0x11F3E, 4), (0x11F50, 10), (0x13440, 0), (0x13447, 14), (0x1611E, 27), (0x16A60, 9), (0x16AC0, 9),
  (0x16AF0, 4), (0x16B30, 6), (0x16B50, 9), (0x16D70, 9), (0x16F4F, 0), (0x16F51, 54), (0x16F8F, 3),
  (0x16FE4, 0), (0x16FF0, 1), (0x1BC9D, 1), (0x1CCF0, 9), (0x1CF00, 45), (0x1CF30, 22), (0x1D165, 4),
  (0x1D16D, 5), (0x1D17B, 7), (0x1D185, 6), (0x1D1AA, 3), (0x1D242, 2), (0x1D7CE, 49), (0x1DA00, 54),
  (0x1DA3B, 49), (0x1DA75, 0), (0x1DA84, 0), (0x1DA9B, 4), (0x1DAA1, 14), (0x1E000, 6), (0x1E008, 16),
  (0x1E01B, 6), (0x1E023, 1), (0x1E026, 4), (0x1E08F, 0), (0x1E130, 6), (0x1E140, 9), (0x1E2AE, 0),
  (0x1E2EC, 13), (0x1E4EC, 13), (0x1E5EE, 1), (0x1E5F1, 9), (0x1E6E3, 0), (0x1E6E6, 0), (0x1E6EE, 1),
  (0x1E6F5, 0), (0x1E8D0, 6), (0x1E944, 6), (0x1E950, 9), (0x1FBF0, 9), (0xE0100, 239)]

/-- A letter in the sense of identifiers. -/
def isIdentifierStart (c : Char) : Bool := c.isAlpha || (128 ≤ c.toNat && inRanges startRanges c.toNat)

/-- A letter, digit, joining mark or underscore. -/
def isIdentifierContinue (c : Char) : Bool :=
  c.isAlphanum || c == '_' ||
    (128 ≤ c.toNat && (inRanges startRanges c.toNat || inRanges continueRanges c.toNat))

end Protobuf.Text
