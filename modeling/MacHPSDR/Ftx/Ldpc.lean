import MacHPSDR.Foundations.BinaryCode
import MacHPSDR.Foundations.BitString
import Mathlib

/-!
# The parity checks of FT8 and FT4

A message of 91 bits is sent with 83 parity bits. `encode174` computes them from the generator
matrix, byte by byte; the decoder counts with `ldpc_check` how many of the 83 checks of another
matrix a word fails. The two matrices describe the same code: the words that fail no check are the
codewords that the encoder makes (`ldpcCheck_eq_zero_iff`).
-/

namespace MacHPSDR.Ftx

open BinaryCode BitString

/-! ## The matrices -/

/-- `kFTX_LDPC_generator`: for each parity bit the message bits that it adds up. -/
def ldpcGenerator : List (List UInt8) := [
  [0x83, 0x29, 0xCE, 0x11, 0xBF, 0x31, 0xEA, 0xF5, 0x09, 0xF2, 0x7F, 0xC0],
  [0x76, 0x1C, 0x26, 0x4E, 0x25, 0xC2, 0x59, 0x33, 0x54, 0x93, 0x13, 0x20],
  [0xDC, 0x26, 0x59, 0x02, 0xFB, 0x27, 0x7C, 0x64, 0x10, 0xA1, 0xBD, 0xC0],
  [0x1B, 0x3F, 0x41, 0x78, 0x58, 0xCD, 0x2D, 0xD3, 0x3E, 0xC7, 0xF6, 0x20],
  [0x09, 0xFD, 0xA4, 0xFE, 0xE0, 0x41, 0x95, 0xFD, 0x03, 0x47, 0x83, 0xA0],
  [0x07, 0x7C, 0xCC, 0xC1, 0x1B, 0x88, 0x73, 0xED, 0x5C, 0x3D, 0x48, 0xA0],
  [0x29, 0xB6, 0x2A, 0xFE, 0x3C, 0xA0, 0x36, 0xF4, 0xFE, 0x1A, 0x9D, 0xA0],
  [0x60, 0x54, 0xFA, 0xF5, 0xF3, 0x5D, 0x96, 0xD3, 0xB0, 0xC8, 0xC3, 0xE0],
  [0xE2, 0x07, 0x98, 0xE4, 0x31, 0x0E, 0xED, 0x27, 0x88, 0x4A, 0xE9, 0x00],
  [0x77, 0x5C, 0x9C, 0x08, 0xE8, 0x0E, 0x26, 0xDD, 0xAE, 0x56, 0x31, 0x80],
  [0xB0, 0xB8, 0x11, 0x02, 0x8C, 0x2B, 0xF9, 0x97, 0x21, 0x34, 0x87, 0xC0],
  [0x18, 0xA0, 0xC9, 0x23, 0x1F, 0xC6, 0x0A, 0xDF, 0x5C, 0x5E, 0xA3, 0x20],
  [0x76, 0x47, 0x1E, 0x83, 0x02, 0xA0, 0x72, 0x1E, 0x01, 0xB1, 0x2B, 0x80],
  [0xFF, 0xBC, 0xCB, 0x80, 0xCA, 0x83, 0x41, 0xFA, 0xFB, 0x47, 0xB2, 0xE0],
  [0x66, 0xA7, 0x2A, 0x15, 0x8F, 0x93, 0x25, 0xA2, 0xBF, 0x67, 0x17, 0x00],
  [0xC4, 0x24, 0x36, 0x89, 0xFE, 0x85, 0xB1, 0xC5, 0x13, 0x63, 0xA1, 0x80],
  [0x0D, 0xFF, 0x73, 0x94, 0x14, 0xD1, 0xA1, 0xB3, 0x4B, 0x1C, 0x27, 0x00],
  [0x15, 0xB4, 0x88, 0x30, 0x63, 0x6C, 0x8B, 0x99, 0x89, 0x49, 0x72, 0xE0],
  [0x29, 0xA8, 0x9C, 0x0D, 0x3D, 0xE8, 0x1D, 0x66, 0x54, 0x89, 0xB0, 0xE0],
  [0x4F, 0x12, 0x6F, 0x37, 0xFA, 0x51, 0xCB, 0xE6, 0x1B, 0xD6, 0xB9, 0x40],
  [0x99, 0xC4, 0x72, 0x39, 0xD0, 0xD9, 0x7D, 0x3C, 0x84, 0xE0, 0x94, 0x00],
  [0x19, 0x19, 0xB7, 0x51, 0x19, 0x76, 0x56, 0x21, 0xBB, 0x4F, 0x1E, 0x80],
  [0x09, 0xDB, 0x12, 0xD7, 0x31, 0xFA, 0xEE, 0x0B, 0x86, 0xDF, 0x6B, 0x80],
  [0x48, 0x8F, 0xC3, 0x3D, 0xF4, 0x3F, 0xBD, 0xEE, 0xA4, 0xEA, 0xFB, 0x40],
  [0x82, 0x74, 0x23, 0xEE, 0x40, 0xB6, 0x75, 0xF7, 0x56, 0xEB, 0x5F, 0xE0],
  [0xAB, 0xE1, 0x97, 0xC4, 0x84, 0xCB, 0x74, 0x75, 0x71, 0x44, 0xA9, 0xA0],
  [0x2B, 0x50, 0x0E, 0x4B, 0xC0, 0xEC, 0x5A, 0x6D, 0x2B, 0xDB, 0xDD, 0x00],
  [0xC4, 0x74, 0xAA, 0x53, 0xD7, 0x02, 0x18, 0x76, 0x16, 0x69, 0x36, 0x00],
  [0x8E, 0xBA, 0x1A, 0x13, 0xDB, 0x33, 0x90, 0xBD, 0x67, 0x18, 0xCE, 0xC0],
  [0x75, 0x38, 0x44, 0x67, 0x3A, 0x27, 0x78, 0x2C, 0xC4, 0x20, 0x12, 0xE0],
  [0x06, 0xFF, 0x83, 0xA1, 0x45, 0xC3, 0x70, 0x35, 0xA5, 0xC1, 0x26, 0x80],
  [0x3B, 0x37, 0x41, 0x78, 0x58, 0xCC, 0x2D, 0xD3, 0x3E, 0xC3, 0xF6, 0x20],
  [0x9A, 0x4A, 0x5A, 0x28, 0xEE, 0x17, 0xCA, 0x9C, 0x32, 0x48, 0x42, 0xC0],
  [0xBC, 0x29, 0xF4, 0x65, 0x30, 0x9C, 0x97, 0x7E, 0x89, 0x61, 0x0A, 0x40],
  [0x26, 0x63, 0xAE, 0x6D, 0xDF, 0x8B, 0x5C, 0xE2, 0xBB, 0x29, 0x48, 0x80],
  [0x46, 0xF2, 0x31, 0xEF, 0xE4, 0x57, 0x03, 0x4C, 0x18, 0x14, 0x41, 0x80],
  [0x3F, 0xB2, 0xCE, 0x85, 0xAB, 0xE9, 0xB0, 0xC7, 0x2E, 0x06, 0xFB, 0xE0],
  [0xDE, 0x87, 0x48, 0x1F, 0x28, 0x2C, 0x15, 0x39, 0x71, 0xA0, 0xA2, 0xE0],
  [0xFC, 0xD7, 0xCC, 0xF2, 0x3C, 0x69, 0xFA, 0x99, 0xBB, 0xA1, 0x41, 0x20],
  [0xF0, 0x26, 0x14, 0x47, 0xE9, 0x49, 0x0C, 0xA8, 0xE4, 0x74, 0xCE, 0xC0],
  [0x44, 0x10, 0x11, 0x58, 0x18, 0x19, 0x6F, 0x95, 0xCD, 0xD7, 0x01, 0x20],
  [0x08, 0x8F, 0xC3, 0x1D, 0xF4, 0xBF, 0xBD, 0xE2, 0xA4, 0xEA, 0xFB, 0x40],
  [0xB8, 0xFE, 0xF1, 0xB6, 0x30, 0x77, 0x29, 0xFB, 0x0A, 0x07, 0x8C, 0x00],
  [0x5A, 0xFE, 0xA7, 0xAC, 0xCC, 0xB7, 0x7B, 0xBC, 0x9D, 0x99, 0xA9, 0x00],
  [0x49, 0xA7, 0x01, 0x6A, 0xC6, 0x53, 0xF6, 0x5E, 0xCD, 0xC9, 0x07, 0x60],
  [0x19, 0x44, 0xD0, 0x85, 0xBE, 0x4E, 0x7D, 0xA8, 0xD6, 0xCC, 0x7D, 0x00],
  [0x25, 0x1F, 0x62, 0xAD, 0xC4, 0x03, 0x2F, 0x0E, 0xE7, 0x14, 0x00, 0x20],
  [0x56, 0x47, 0x1F, 0x87, 0x02, 0xA0, 0x72, 0x1E, 0x00, 0xB1, 0x2B, 0x80],
  [0x2B, 0x8E, 0x49, 0x23, 0xF2, 0xDD, 0x51, 0xE2, 0xD5, 0x37, 0xFA, 0x00],
  [0x6B, 0x55, 0x0A, 0x40, 0xA6, 0x6F, 0x47, 0x55, 0xDE, 0x95, 0xC2, 0x60],
  [0xA1, 0x8A, 0xD2, 0x8D, 0x4E, 0x27, 0xFE, 0x92, 0xA4, 0xF6, 0xC8, 0x40],
  [0x10, 0xC2, 0xE5, 0x86, 0x38, 0x8C, 0xB8, 0x2A, 0x3D, 0x80, 0x75, 0x80],
  [0xEF, 0x34, 0xA4, 0x18, 0x17, 0xEE, 0x02, 0x13, 0x3D, 0xB2, 0xEB, 0x00],
  [0x7E, 0x9C, 0x0C, 0x54, 0x32, 0x5A, 0x9C, 0x15, 0x83, 0x6E, 0x00, 0x00],
  [0x36, 0x93, 0xE5, 0x72, 0xD1, 0xFD, 0xE4, 0xCD, 0xF0, 0x79, 0xE8, 0x60],
  [0xBF, 0xB2, 0xCE, 0xC5, 0xAB, 0xE1, 0xB0, 0xC7, 0x2E, 0x07, 0xFB, 0xE0],
  [0x7E, 0xE1, 0x82, 0x30, 0xC5, 0x83, 0xCC, 0xCC, 0x57, 0xD4, 0xB0, 0x80],
  [0xA0, 0x66, 0xCB, 0x2F, 0xED, 0xAF, 0xC9, 0xF5, 0x26, 0x64, 0x12, 0x60],
  [0xBB, 0x23, 0x72, 0x5A, 0xBC, 0x47, 0xCC, 0x5F, 0x4C, 0xC4, 0xCD, 0x20],
  [0xDE, 0xD9, 0xDB, 0xA3, 0xBE, 0xE4, 0x0C, 0x59, 0xB5, 0x60, 0x9B, 0x40],
  [0xD9, 0xA7, 0x01, 0x6A, 0xC6, 0x53, 0xE6, 0xDE, 0xCD, 0xC9, 0x03, 0x60],
  [0x9A, 0xD4, 0x6A, 0xED, 0x5F, 0x70, 0x7F, 0x28, 0x0A, 0xB5, 0xFC, 0x40],
  [0xE5, 0x92, 0x1C, 0x77, 0x82, 0x25, 0x87, 0x31, 0x6D, 0x7D, 0x3C, 0x20],
  [0x4F, 0x14, 0xDA, 0x82, 0x42, 0xA8, 0xB8, 0x6D, 0xCA, 0x73, 0x35, 0x20],
  [0x8B, 0x8B, 0x50, 0x7A, 0xD4, 0x67, 0xD4, 0x44, 0x1D, 0xF7, 0x70, 0xE0],
  [0x22, 0x83, 0x1C, 0x9C, 0xF1, 0x16, 0x94, 0x67, 0xAD, 0x04, 0xB6, 0x80],
  [0x21, 0x3B, 0x83, 0x8F, 0xE2, 0xAE, 0x54, 0xC3, 0x8E, 0xE7, 0x18, 0x00],
  [0x5D, 0x92, 0x6B, 0x6D, 0xD7, 0x1F, 0x08, 0x51, 0x81, 0xA4, 0xE1, 0x20],
  [0x66, 0xAB, 0x79, 0xD4, 0xB2, 0x9E, 0xE6, 0xE6, 0x95, 0x09, 0xE5, 0x60],
  [0x95, 0x81, 0x48, 0x68, 0x2D, 0x74, 0x8A, 0x38, 0xDD, 0x68, 0xBA, 0xA0],
  [0xB8, 0xCE, 0x02, 0x0C, 0xF0, 0x69, 0xC3, 0x2A, 0x72, 0x3A, 0xB1, 0x40],
  [0xF4, 0x33, 0x1D, 0x6D, 0x46, 0x16, 0x07, 0xE9, 0x57, 0x52, 0x74, 0x60],
  [0x6D, 0xA2, 0x3B, 0xA4, 0x24, 0xB9, 0x59, 0x61, 0x33, 0xCF, 0x9C, 0x80],
  [0xA6, 0x36, 0xBC, 0xBC, 0x7B, 0x30, 0xC5, 0xFB, 0xEA, 0xE6, 0x7F, 0xE0],
  [0x5C, 0xB0, 0xD8, 0x6A, 0x07, 0xDF, 0x65, 0x4A, 0x90, 0x89, 0xA2, 0x00],
  [0xF1, 0x1F, 0x10, 0x68, 0x48, 0x78, 0x0F, 0xC9, 0xEC, 0xDD, 0x80, 0xA0],
  [0x1F, 0xBB, 0x53, 0x64, 0xFB, 0x8D, 0x2C, 0x9D, 0x73, 0x0D, 0x5B, 0xA0],
  [0xFC, 0xB8, 0x6B, 0xC7, 0x0A, 0x50, 0xC9, 0xD0, 0x2A, 0x5D, 0x03, 0x40],
  [0xA5, 0x34, 0x43, 0x30, 0x29, 0xEA, 0xC1, 0x5F, 0x32, 0x2E, 0x34, 0xC0],
  [0xC9, 0x89, 0xD9, 0xC7, 0xC3, 0xD3, 0xB8, 0xC5, 0x5D, 0x75, 0x13, 0x00],
  [0x7B, 0xB3, 0x8B, 0x2F, 0x01, 0x86, 0xD4, 0x66, 0x43, 0xAE, 0x96, 0x20],
  [0x26, 0x44, 0xEB, 0xAD, 0xEB, 0x44, 0xB9, 0x46, 0x7D, 0x1F, 0x42, 0xC0],
  [0x60, 0x8C, 0xC8, 0x57, 0x59, 0x4B, 0xFB, 0xB5, 0x5D, 0x69, 0x60, 0x00]]

/-- `kFTX_LDPC_Nm`: for each check the bits of the codeword that it looks at, counted from one. -/
def ldpcNm : List (List ℕ) := [
  [4, 31, 59, 91, 92, 96, 153],
  [5, 32, 60, 93, 115, 146, 0],
  [6, 24, 61, 94, 122, 151, 0],
  [7, 33, 62, 95, 96, 143, 0],
  [8, 25, 63, 83, 93, 96, 148],
  [6, 32, 64, 97, 126, 138, 0],
  [5, 34, 65, 78, 98, 107, 154],
  [9, 35, 66, 99, 139, 146, 0],
  [10, 36, 67, 100, 107, 126, 0],
  [11, 37, 67, 87, 101, 139, 158],
  [12, 38, 68, 102, 105, 155, 0],
  [13, 39, 69, 103, 149, 162, 0],
  [8, 40, 70, 82, 104, 114, 145],
  [14, 41, 71, 88, 102, 123, 156],
  [15, 42, 59, 106, 123, 159, 0],
  [1, 33, 72, 106, 107, 157, 0],
  [16, 43, 73, 108, 141, 160, 0],
  [17, 37, 74, 81, 109, 131, 154],
  [11, 44, 75, 110, 121, 166, 0],
  [45, 55, 64, 111, 130, 161, 173],
  [8, 46, 71, 112, 119, 166, 0],
  [18, 36, 76, 89, 113, 114, 143],
  [19, 38, 77, 104, 116, 163, 0],
  [20, 47, 70, 92, 138, 165, 0],
  [2, 48, 74, 113, 128, 160, 0],
  [21, 45, 78, 83, 117, 121, 151],
  [22, 47, 58, 118, 127, 164, 0],
  [16, 39, 62, 112, 134, 158, 0],
  [23, 43, 79, 120, 131, 145, 0],
  [19, 35, 59, 73, 110, 125, 161],
  [20, 36, 63, 94, 136, 161, 0],
  [14, 31, 79, 98, 132, 164, 0],
  [3, 44, 80, 124, 127, 169, 0],
  [19, 46, 81, 117, 135, 167, 0],
  [7, 49, 58, 90, 100, 105, 168],
  [12, 50, 61, 118, 119, 144, 0],
  [13, 51, 64, 114, 118, 157, 0],
  [24, 52, 76, 129, 148, 149, 0],
  [25, 53, 69, 90, 101, 130, 156],
  [20, 46, 65, 80, 120, 140, 170],
  [21, 54, 77, 100, 140, 171, 0],
  [35, 82, 133, 142, 171, 174, 0],
  [14, 30, 83, 113, 125, 170, 0],
  [4, 29, 68, 120, 134, 173, 0],
  [1, 4, 52, 57, 86, 136, 152],
  [26, 51, 56, 91, 122, 137, 168],
  [52, 84, 110, 115, 145, 168, 0],
  [7, 50, 81, 99, 132, 173, 0],
  [23, 55, 67, 95, 172, 174, 0],
  [26, 41, 77, 109, 141, 148, 0],
  [2, 27, 41, 61, 62, 115, 133],
  [27, 40, 56, 124, 125, 126, 0],
  [18, 49, 55, 124, 141, 167, 0],
  [6, 33, 85, 108, 116, 156, 0],
  [28, 48, 70, 85, 105, 129, 158],
  [9, 54, 63, 131, 147, 155, 0],
  [22, 53, 68, 109, 121, 174, 0],
  [3, 13, 48, 78, 95, 123, 0],
  [31, 69, 133, 150, 155, 169, 0],
  [12, 43, 66, 89, 97, 135, 159],
  [5, 39, 75, 102, 136, 167, 0],
  [2, 54, 86, 101, 135, 164, 0],
  [15, 56, 87, 108, 119, 171, 0],
  [10, 44, 82, 91, 111, 144, 149],
  [23, 34, 71, 94, 127, 153, 0],
  [11, 49, 88, 92, 142, 157, 0],
  [29, 34, 87, 97, 147, 162, 0],
  [30, 50, 60, 86, 137, 142, 162],
  [10, 53, 66, 84, 112, 128, 165],
  [22, 57, 85, 93, 140, 159, 0],
  [28, 32, 72, 103, 132, 166, 0],
  [28, 29, 84, 88, 117, 143, 150],
  [1, 26, 45, 80, 128, 147, 0],
  [17, 27, 89, 103, 116, 153, 0],
  [51, 57, 98, 163, 165, 172, 0],
  [21, 37, 73, 138, 152, 169, 0],
  [16, 47, 76, 130, 137, 154, 0],
  [3, 24, 30, 72, 104, 139, 0],
  [9, 40, 90, 106, 134, 151, 0],
  [15, 58, 60, 74, 111, 150, 163],
  [18, 42, 79, 144, 146, 152, 0],
  [25, 38, 65, 99, 122, 160, 0],
  [17, 42, 75, 129, 170, 172, 0]]

/-- `kFTX_LDPC_Num_rows`: how many entries of a row of `ldpcNm` there are. -/
def ldpcNumRows : List ℕ :=
  [7, 6, 6, 6, 7, 6, 7, 6, 6, 7, 6, 6, 7, 7, 6, 6, 6, 7, 6, 7, 6, 7, 6, 6, 6, 7, 6, 6,
    6, 7, 6, 6, 6, 6, 7, 6, 6, 6, 7, 7, 6, 6, 6, 6, 7, 7, 6, 6, 6, 6, 7, 6, 6, 6, 7, 6,
    6, 6, 6, 7, 6, 6, 6, 7, 6, 6, 6, 7, 7, 6, 6, 7, 6, 6, 6, 6, 6, 6, 6, 7, 6, 6, 6]

/-- Which checks of `ldpcNm` add up to the definition of each parity bit. -/
def generatorChecks : List ℕ :=
  [0x5D308F6CB56570F57B913, 0x150642AC074F8F830AC5E, 0x1954A6FCFD5AD558DCAE0,
    0x35F5E531105C9FC67B3AD, 0x3EBFCE94EAEB506F18303, 0x75DDB24BC8C6A14719877,
    0x7743F78FA15480D428595, 0x1F43CDECBDEF78717B302, 0x185495CCBB27F23AFEAED,
    0x3300C499C525E6203F584, 0x1E2069F889F93866249C9, 0x7C30E9F0DBC3797425553,
    0x587CF923874308785303E, 0x74397B46BD3C7B88B8C7E, 0x796AB3A3818A82E9DAAFC,
    0x7B09E43E119984BEA25A4, 0x344A24E31DE8FE4E1B526, 0x5942D07C85F1D58BCC06B,
    0x16D2E3B3164897DD7A246, 0x33E0B6151C5BFB2EB0A1E, 0x74B09DAED6E43531C4EA0,
    0x79B0A9DC544466362FBAD, 0x72FA8279AEF3A99D4CB0B, 0x503976633DE3FF8A22FE0,
    0x1F9FA808844D59EE46F42, 0x7741CC9BE5E26515C65C4, 0x7099D5E43EE1AFCA3C453,
    0x7585A13130469ED84AAC4, 0x7F8EB8971C8C710478B2F, 0x17E7DF2CF0EA3C35B4622,
    0x79F2B54BE8528C58AE902, 0x35F5E511105C9FC67B3AD, 0x3CF874A7F4A7F31AA4BC4,
    0x5FA50555DE19859EF858D, 0x635D71F2AABE76845CE49, 0x7ADBF704A2D4F5C2BF0F1,
    0x3F01D17B01F9920FFA1AD, 0x1D4546F8FF5A95D0D4BC4, 0x18D548705C84418062FE0,
    0x5508C3CD353CD1E16601A, 0x7D01D56F3D61D29CAB137, 0x503976637DE3FF8A22FE0,
    0x1DCCA0149482DBE9A891A, 0x3942E4795910BC68BC126, 0x5023401A350BC11B5ED2B,
    0x159F5BC1EC4945EAE8F91, 0x1680C3B96278D7C34561E, 0x5A7CF923874308785303E,
    0x599B141E969992ACAF50F, 0x72FB5C4448550A67DEF26, 0x5F53F8F1257676A20B64B,
    0xB4A2BA5FAB7CFA9630A6, 0x51C74D50EA7B11276E97, 0x2A867B5A29B0A1E51EB35,
    0x453F34CF3AAC7009283BC, 0x3F11D17B01F9920FFA1AD, 0x2BB98C38EDA4DFEC12F4D,
    0x36FCCAC012FC4A3CC6489, 0x7C03E73E1F55AABCA5562, 0x60A613B715085900723E6,
    0x5023401A340BC11B5ED2B, 0x638F41F85F8E209A63A11, 0xC4A13B1B0CD046A8A071,
    0x6A1912BE34C543EE9C1B7, 0x2BD58CE999A5A7A05DA64, 0x263579D9013065770F58,
    0x697C3DBA4266EE586C7BA, 0x4C9F56B291D61D2FA5951, 0x46B178A755BDF429D5A00,
    0x4977E6E6C8511043827CB, 0x4ACC2330C93F3348E39DA, 0x47E3512B030E519215F7C,
    0xA4222E09C355A48834A2, 0x4BB04CD5D71DA73E3EF0D, 0x1353C9FE6A2ABE88E464,
    0x4E0328E2BCF2F97D7A4E2, 0x6C6DEE8A061BC9B246693, 0x462383A3567316D81BB35,
    0x2615AC898A1DE3A8D7E20, 0x41CF81D22DAE609651FE2, 0x7B50EA7175477678035E4,
    0x62421883888EAAEDD0235, 0x4EA50F40751BE9BE78649]

/-! ## The decoder's side -/

/-- The bits of the codeword that a check looks at, added up. -/
def checkSum (codeword : List Bool) (row : List ℕ) (numRows : ℕ) : Bool :=
  (row.take numRows).foldl (fun x i => x ^^ codeword.getD (i - 1) false) false

/-- `ldpc_check`: the number of parity errors. -/
def ldpcCheck (codeword : List Bool) : ℕ :=
  (ldpcNm.zip ldpcNumRows).countP fun r => checkSum codeword r.1 r.2

/-! ## The encoder's side -/

/-- `parity8` -/
def parity8 (x : UInt8) : UInt8 :=
  let x := x ^^^ (x >>> 4)
  let x := x ^^^ (x >>> 2)
  let x := x ^^^ (x >>> 1)
  x % 2

/-- The dot product of the message and a row of the generator, as far as it is odd. -/
def nsum (message row : List UInt8) : UInt8 :=
  (message.zip row).foldl (fun n b => n ^^^ parity8 (b.1 &&& b.2)) 0

/-- The loop of `encode174` over the rows of the generator. -/
def encodeLoop (message : List UInt8) : List (List UInt8) → List UInt8 → Cursor → List UInt8
  | [], codeword, _ => codeword
  | row :: rows, codeword, c =>
    encodeLoop message rows
      (if nsum message row % 2 ≠ 0 then setBit codeword c else codeword) c.next

/-- `encode174` -/
def encode174 (message : List UInt8) : List UInt8 :=
  encodeLoop message ldpcGenerator (message ++ List.replicate 10 0) ⟨(0x80 : UInt8) >>> 3, 11⟩

/-! ## What the loops compute -/

/-- The mask of a check. -/
def checkMask (row : List ℕ) (numRows : ℕ) : ℕ :=
  (row.take numRows).foldl (fun m i => m ^^^ 1 <<< (i - 1)) 0

def checkMasks : List ℕ := (ldpcNm.zip ldpcNumRows).map fun r => checkMask r.1 r.2

def generatorMasks : List ℕ := ldpcGenerator.map fun row => maskOf (bits row)

theorem foldl_pairing (codeword : List Bool) (is : List ℕ) (m : ℕ) :
    is.foldl (fun x i => x ^^ codeword.getD (i - 1) false) (pairing codeword m) =
      pairing codeword (is.foldl (fun m i => m ^^^ 1 <<< (i - 1)) m) := by
  induction is generalizing m with
  | nil => rfl
  | cons i is ih =>
    rw [List.foldl_cons, List.foldl_cons, ← pairing_one_shiftLeft, ← pairing_xor, ih]

theorem checkSum_eq (codeword : List Bool) (row : List ℕ) (numRows : ℕ) :
    checkSum codeword row numRows = pairing codeword (checkMask row numRows) := by
  rw [checkSum, checkMask, ← foldl_pairing, pairing_zero]

theorem ldpcCheck_eq_zero_iff_null (codeword : List Bool) :
    ldpcCheck codeword = 0 ↔ Null checkMasks codeword := by
  simp only [ldpcCheck, List.countP_eq_zero, checkSum_eq, Bool.not_eq_true, Null, checkMasks,
    List.forall_mem_map]

/-- The parity of the ones of a byte. -/
theorem parity8_eq (x : UInt8) :
    parity8 x = if (byteBits x).foldr xor false then 1 else 0 := by
  have hall : ∀ n : Fin 256, parity8 (UInt8.ofNat n) =
      if (byteBits (UInt8.ofNat n)).foldr xor false then 1 else 0 := by decide +kernel
  have hx := hall ⟨x.toNat, x.toNat_lt⟩
  rwa [UInt8.ofNat_toNat] at hx

theorem pairing_maskOf {x y : List Bool} (h : x.length = y.length) :
    pairing x (maskOf y) = (x.zipWith and y).foldr xor false := by
  induction x generalizing y with
  | nil => rfl
  | cons b x ih =>
    cases y with
    | nil => cases h
    | cons c y => rw [pairing_maskOf_cons, ih (Nat.succ.inj h)]; rfl

theorem byteBits_and (a b : UInt8) :
    byteBits (a &&& b) = (byteBits a).zipWith and (byteBits b) := by
  rw [byteBits, byteBits, byteBits, List.zipWith_map, List.zipWith_self]
  refine List.map_congr_left fun i _ => ?_
  rw [UInt8.toBitVec_and, BitVec.getMsbD_and]

theorem parity8_and (a b : UInt8) :
    parity8 (a &&& b) = if pairing (byteBits a) (maskOf (byteBits b)) then 1 else 0 := by
  rw [parity8_eq, byteBits_and, pairing_maskOf (by simp)]

theorem nsum_eq {message row : List UInt8} (h : message.length = row.length) :
    nsum message row = if pairing (bits message) (maskOf (bits row)) then 1 else 0 := by
  suffices hfold : ∀ p : Bool, (message.zip row).foldl (fun n b => n ^^^ parity8 (b.1 &&& b.2))
      (if p then 1 else 0) =
        if p ^^ pairing (bits message) (maskOf (bits row)) then 1 else 0 by
    simpa [nsum] using hfold false
  intro p
  induction message generalizing row p with
  | nil => simp [pairing]
  | cons a message ih =>
    cases row with
    | nil => cases h
    | cons b row =>
      have hxor (q r : Bool) : ((if q then 1 else 0) ^^^ if r then 1 else 0 : UInt8) =
          if q ^^ r then 1 else 0 := by
        cases q <;> cases r <;> rfl
      rw [List.zip_cons_cons, List.foldl_cons, parity8_and, hxor, ih (Nat.succ.inj h), bits_cons,
        bits_cons, pairing_maskOf_append (by simp), Bool.xor_assoc]

theorem encodeLoop_eq {message : List UInt8} {rows : List (List UInt8)}
    (h : ∀ row ∈ rows, message.length = row.length) (codeword : List UInt8) (c : Cursor) :
    encodeLoop message rows codeword c =
      writeBits (rows.map fun row => pairing (bits message) (maskOf (bits row))) codeword c := by
  induction rows generalizing codeword c with
  | nil => rfl
  | cons row rows ih =>
    obtain ⟨hrow, h⟩ := List.forall_mem_cons.1 h
    have hodd (p : Bool) : ((if p then 1 else 0 : UInt8) % 2 ≠ 0) ↔ p = true := by
      cases p <;> decide
    rw [encodeLoop, List.map_cons, writeBits, ih h, nsum_eq hrow]
    simp only [hodd]

/-! ## The code -/

theorem generatorMasks_lt : ∀ g ∈ generatorMasks, g < 2 ^ 91 := by decide +kernel

/-- **The codeword** of a message is the message and its parity bits. -/
theorem bits_encode174 {message : List UInt8} {m : List Bool}
    (h : bits message = m ++ List.replicate 5 false) (hm : m.length = 91) :
    bits (encode174 message) =
      m ++ (generatorMasks.map (pairing m) ++ List.replicate 2 false) := by
  have hlen : message.length = 12 := by
    have := congrArg List.length h
    simp only [length_bits, List.length_append, List.length_replicate, hm] at this
    omega
  have hrows : ∀ row ∈ ldpcGenerator, message.length = row.length := by
    rw [hlen]
    decide
  have hparity : (ldpcGenerator.map fun row => pairing (bits message) (maskOf (bits row))) =
      generatorMasks.map (pairing m) := by
    rw [generatorMasks, List.map_map]
    refine List.map_congr_left fun row _ => ?_
    rw [h, pairing_append, pairing_replicate_false, Bool.xor_false]
    rfl
  have hzero : bits (message ++ List.replicate 10 0) =
      m ++ (List.replicate (generatorMasks.map (pairing m)).length false ++
        List.replicate 2 false) := by
    rw [bits_append, h, bits_replicate, List.append_assoc, ← List.replicate_add,
      ← List.replicate_add, List.length_map]
    rfl
  rw [encode174, encodeLoop_eq hrows, hparity]
  have hplace : (⟨(0x80 : UInt8) >>> 3, 11⟩ : Cursor) = Cursor.place m.length := by
    rw [hm]
    rfl
  rw [hplace]
  exact bits_writeBits _ hzero

/-- The two matrices have the same words. -/
theorem null_checkMasks (codeword : List Bool) :
    Null checkMasks codeword ↔ Null (systematic 91 generatorMasks) codeword := by
  refine null_iff generatorChecks (checkMasks.map (· >>> 91)) ?_ ?_ codeword
  · decide +kernel
  · decide +kernel

/-- The words of the matrix of the checks are what the encoder makes of their first 91 bits. -/
theorem null_checkMasks_iff {codeword : List Bool} (h : codeword.length = 174) :
    Null checkMasks codeword ↔
      bits (encode174 (packBits (codeword.take 91))) = codeword ++ [false, false] := by
  have hm : (codeword.take 91).length = 91 := by
    rw [List.length_take, h]
    rfl
  have hpack : bits (packBits (codeword.take 91)) =
      codeword.take 91 ++ List.replicate 5 false := by
    rw [bits_packBits, hm]
  have hparity : (codeword.drop 91).length = generatorMasks.length := by
    rw [List.length_drop, h]
    rfl
  have hmasks : ∀ g ∈ generatorMasks, g < 2 ^ (codeword.take 91).length := by
    rw [hm]
    exact generatorMasks_lt
  have hnull := null_systematic hmasks hparity
  rw [hm, List.take_append_drop] at hnull
  rw [null_checkMasks, hnull, bits_encode174 hpack hm, ← List.append_assoc]
  conv_rhs =>
    rw [show [false, false] = List.replicate 2 false from rfl, List.append_left_inj]
    rhs
    rw [← List.take_append_drop 91 codeword]
  rw [List.append_right_inj, eq_comm]

/-- **The decoder's checks and the encoder's matrix** describe one code: a word fails no check if
and only if it is what the encoder makes of its first 91 bits. -/
theorem ldpcCheck_eq_zero_iff {codeword : List Bool} (h : codeword.length = 174) :
    ldpcCheck codeword = 0 ↔
      bits (encode174 (packBits (codeword.take 91))) = codeword ++ [false, false] :=
  (ldpcCheck_eq_zero_iff_null codeword).trans (null_checkMasks_iff h)

theorem ldpcCheck_encode174_one :
    ldpcCheck ((bits (encode174 (0x80 :: List.replicate 11 0))).take 174) = 0 :=
  (ldpcCheck_eq_zero_iff (by decide +kernel)).2 (by decide +kernel)

end MacHPSDR.Ftx
