/-!
# 6502 instruction patterns

All 256 opcodes, the undocumented ones too. The letters: `I` immediate byte, `Z` zero page,
`X` and `Y` zero page with an index, `A` absolute, `U` and `V` absolute with an index, `P`
indirect, `N` and `M` indirect with an index, `J` label, `R` relative label.
-/

namespace RomListing.Mos6502

def patterns : List (Nat × String) :=
  [
    (0x00, "brk|7"), (0x01, "ora ^N|6"), (0x02, "jam|2"), (0x03, "slo ^N|8"),
    (0x04, "nop ^Z|3"), (0x05, "ora ^Z|3"), (0x06, "asl ^Z|5"), (0x07, "slo ^Z|5"),
    (0x08, "php|3"), (0x09, "ora ^I|2"), (0x0A, "asl|2"), (0x0B, "aac ^I|2"),
    (0x0C, "nop ^A|4"), (0x0D, "ora ^A|4"), (0x0E, "asl ^A|6"), (0x0F, "slo ^A|6"),
    (0x10, "bpl ^R|2"), (0x11, "ora ^M|5"), (0x12, "jam|2"), (0x13, "slo ^M|8"),
    (0x14, "nop ^X|4"), (0x15, "ora ^X|4"), (0x16, "asl ^X|6"), (0x17, "slo ^X|6"),
    (0x18, "clc|2"), (0x19, "ora ^V|4"), (0x1A, "nop|2"), (0x1B, "slo ^V|7"),
    (0x1C, "nop ^U|4"), (0x1D, "ora ^U|4"), (0x1E, "asl ^U|7"), (0x1F, "slo ^U|7"),
    (0x20, "jsr ^J|6"), (0x21, "and ^N|6"), (0x22, "jam|2"), (0x23, "rla ^N|8"),
    (0x24, "bit ^Z|3"), (0x25, "and ^Z|3"), (0x26, "rol ^Z|5"), (0x27, "rla ^Z|5"),
    (0x28, "plp|4"), (0x29, "and ^I|2"), (0x2A, "rol|2"), (0x2B, "aac ^I|2"),
    (0x2C, "bit ^A|4"), (0x2D, "and ^A|4"), (0x2E, "rol ^A|6"), (0x2F, "rla ^A|6"),
    (0x30, "bmi ^R|2"), (0x31, "and ^M|5"), (0x32, "jam|2"), (0x33, "rla ^M|8"),
    (0x34, "nop ^X|4"), (0x35, "and ^X|4"), (0x36, "rol ^X|6"), (0x37, "rla ^X|6"),
    (0x38, "sec|2"), (0x39, "and ^V|4"), (0x3A, "nop|2"), (0x3B, "rla ^V|7"),
    (0x3C, "nop ^U|4"), (0x3D, "and ^U|4"), (0x3E, "rol ^U|7"), (0x3F, "rla ^U|7"),
    (0x40, "rti|6"), (0x41, "eor ^N|6"), (0x42, "jam|2"), (0x43, "sre ^N|8"),
    (0x44, "nop ^Z|3"), (0x45, "eor ^Z|3"), (0x46, "lsr ^Z|5"), (0x47, "sre ^Z|5"),
    (0x48, "pha|3"), (0x49, "eor ^I|2"), (0x4A, "lsr|2"), (0x4B, "asr ^I|2"),
    (0x4C, "jmp ^J|3"), (0x4D, "eor ^A|4"), (0x4E, "lsr ^A|6"), (0x4F, "sre ^A|6"),
    (0x50, "bvc ^R|2"), (0x51, "eor ^M|5"), (0x52, "jam|2"), (0x53, "sre ^M|8"),
    (0x54, "nop ^X|4"), (0x55, "eor ^X|4"), (0x56, "lsr ^X|6"), (0x57, "sre ^X|6"),
    (0x58, "cli|2"), (0x59, "eor ^V|4"), (0x5A, "nop|2"), (0x5B, "sre ^V|7"),
    (0x5C, "nop ^U|4"), (0x5D, "eor ^U|4"), (0x5E, "lsr ^U|7"), (0x5F, "sre ^U|7"),
    (0x60, "rts|6"), (0x61, "adc ^N|6"), (0x62, "jam|2"), (0x63, "rra ^N|8"),
    (0x64, "nop ^Z|3"), (0x65, "adc ^Z|3"), (0x66, "ror ^Z|5"), (0x67, "rra ^Z|5"),
    (0x68, "pla|4"), (0x69, "adc ^I|2"), (0x6A, "ror|2"), (0x6B, "arr ^I|2"),
    (0x6C, "jmp ^P|5"), (0x6D, "adc ^A|4"), (0x6E, "ror ^A|6"), (0x6F, "rra ^A|6"),
    (0x70, "bvs ^R|2"), (0x71, "adc ^M|5"), (0x72, "jam|2"), (0x73, "rra ^M|8"),
    (0x74, "nop ^X|4"), (0x75, "adc ^X|4"), (0x76, "ror ^X|6"), (0x77, "rra ^X|6"),
    (0x78, "sei|2"), (0x79, "adc ^V|4"), (0x7A, "nop|2"), (0x7B, "rra ^V|7"),
    (0x7C, "nop ^U|4"), (0x7D, "adc ^U|4"), (0x7E, "ror ^U|7"), (0x7F, "rra ^U|7"),
    (0x80, "nop ^I|2"), (0x81, "sta ^N|6"), (0x82, "nop ^I|2"), (0x83, "sax ^N|6"),
    (0x84, "sty ^Z|3"), (0x85, "sta ^Z|3"), (0x86, "stx ^Z|3"), (0x87, "sax ^Z|3"),
    (0x88, "dey|2"), (0x89, "nop ^I|2"), (0x8A, "txa|2"), (0x8B, "xaa ^I|2"),
    (0x8C, "sty ^A|4"), (0x8D, "sta ^A|4"), (0x8E, "stx ^A|4"), (0x8F, "sax ^A|4"),
    (0x90, "bcc ^R|2"), (0x91, "sta ^M|6"), (0x92, "jam|2"), (0x93, "axa ^M|6"),
    (0x94, "sty ^X|4"), (0x95, "sta ^X|4"), (0x96, "stx ^Y|4"), (0x97, "sax ^Y|4"),
    (0x98, "tya|2"), (0x99, "sta ^V|5"), (0x9A, "txs|2"), (0x9B, "xas ^V|5"),
    (0x9C, "sya ^U|5"), (0x9D, "sta ^U|5"), (0x9E, "sxa ^V|5"), (0x9F, "axa ^V|5"),
    (0xA0, "ldy ^I|2"), (0xA1, "lda ^N|6"), (0xA2, "ldx ^I|2"), (0xA3, "lax ^N|6"),
    (0xA4, "ldy ^Z|3"), (0xA5, "lda ^Z|3"), (0xA6, "ldx ^Z|3"), (0xA7, "lax ^Z|3"),
    (0xA8, "tay|2"), (0xA9, "lda ^I|2"), (0xAA, "tax|2"), (0xAB, "atx ^I|2"),
    (0xAC, "ldy ^A|4"), (0xAD, "lda ^A|4"), (0xAE, "ldx ^A|4"), (0xAF, "lax ^A|4"),
    (0xB0, "bcs ^R|2"), (0xB1, "lda ^M|5"), (0xB2, "jam|2"), (0xB3, "lax ^M|5"),
    (0xB4, "ldy ^X|4"), (0xB5, "lda ^X|4"), (0xB6, "ldx ^Y|4"), (0xB7, "lax ^Y|4"),
    (0xB8, "clv|2"), (0xB9, "lda ^V|4"), (0xBA, "tsx|2"), (0xBB, "lar ^V|4"),
    (0xBC, "ldy ^U|4"), (0xBD, "lda ^U|4"), (0xBE, "ldx ^V|4"), (0xBF, "lax ^V|4"),
    (0xC0, "cpy ^I|2"), (0xC1, "cmp ^N|6"), (0xC2, "nop ^I|2"), (0xC3, "dcp ^N|8"),
    (0xC4, "cpy ^Z|3"), (0xC5, "cmp ^Z|3"), (0xC6, "dec ^Z|5"), (0xC7, "dcp ^Z|5"),
    (0xC8, "iny|2"), (0xC9, "cmp ^I|2"), (0xCA, "dex|2"), (0xCB, "axs ^I|2"),
    (0xCC, "cpy ^A|4"), (0xCD, "cmp ^A|4"), (0xCE, "dec ^A|6"), (0xCF, "dcp ^A|6"),
    (0xD0, "bne ^R|2"), (0xD1, "cmp ^M|5"), (0xD2, "jam|2"), (0xD3, "dcp ^M|8"),
    (0xD4, "nop ^X|4"), (0xD5, "cmp ^X|4"), (0xD6, "dec ^X|6"), (0xD7, "dcp ^X|6"),
    (0xD8, "cld|2"), (0xD9, "cmp ^V|4"), (0xDA, "nop|2"), (0xDB, "dcp ^V|7"),
    (0xDC, "nop ^U|4"), (0xDD, "cmp ^U|4"), (0xDE, "dec ^U|7"), (0xDF, "dcp ^U|7"),
    (0xE0, "cpx ^I|2"), (0xE1, "sbc ^N|6"), (0xE2, "nop ^I|2"), (0xE3, "isc ^N|8"),
    (0xE4, "cpx ^Z|3"), (0xE5, "sbc ^Z|3"), (0xE6, "inc ^Z|5"), (0xE7, "isc ^Z|5"),
    (0xE8, "inx|2"), (0xE9, "sbc ^I|2"), (0xEA, "nop|2"), (0xEB, "sbc ^I|2"),
    (0xEC, "cpx ^A|4"), (0xED, "sbc ^A|4"), (0xEE, "inc ^A|6"), (0xEF, "isc ^A|6"),
    (0xF0, "beq ^R|2"), (0xF1, "sbc ^M|5"), (0xF2, "jam|2"), (0xF3, "isc ^M|8"),
    (0xF4, "nop ^X|4"), (0xF5, "sbc ^X|4"), (0xF6, "inc ^X|6"), (0xF7, "isc ^X|6"),
    (0xF8, "sed|2"), (0xF9, "sbc ^V|4"), (0xFA, "nop|2"), (0xFB, "isc ^V|7"),
    (0xFC, "nop ^U|4"), (0xFD, "sbc ^U|4"), (0xFE, "inc ^U|7"), (0xFF, "isc ^U|7")
  ]

end RomListing.Mos6502
