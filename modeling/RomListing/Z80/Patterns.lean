/-!
# Z80 instruction patterns

The patterns of the instructions without a prefix, after `ED`, and after `DD` or `FD`. The
letters: `B` byte, `W` word, `w` word with the high byte first, `L` label, `r` relative
label, `R` restart address, `N` Next register, `b` bit number, `s` 8-bit register, `X` index
register, `h` and `l` its halves, `D` displacement. Without a timing an instruction takes
its prefixes' time and four states.
-/

namespace RomListing.Z80

def registers : List String := ["b", "c", "d", "e", "h", "l", "(hl)", "a"]

def shifts : List String := ["rlc", "rrc", "rl", "rr", "sla", "sra", "sll", "srl"]

def plainPatterns : List (Nat × String) :=
  [
    (0x00, "nop"), (0x01, "ld bc,^W|10"), (0x02, "ld (bc),a|7"), (0x03, "inc bc|6"),
    (0x04, "inc b"), (0x05, "dec b"), (0x06, "ld b,^B|7"), (0x07, "rlca"), (0x08, "ex af,af'"),
    (0x09, "add hl,bc|11"), (0x0A, "ld a,(bc)|7"), (0x0B, "dec bc|6"), (0x0C, "inc c"),
    (0x0D, "dec c"), (0x0E, "ld c,^B|7"), (0x0F, "rrca"), (0x10, "djnz ^r|13/8"),
    (0x11, "ld de,^W|10"), (0x12, "ld (de),a|7"), (0x13, "inc de|6"), (0x14, "inc d"),
    (0x15, "dec d"), (0x16, "ld d,^B|7"), (0x17, "rla"), (0x18, "jr ^r|12"),
    (0x19, "add hl,de|11"), (0x1A, "ld a,(de)|7"), (0x1B, "dec de|6"), (0x1C, "inc e"),
    (0x1D, "dec e"), (0x1E, "ld e,^B|7"), (0x1F, "rra"), (0x20, "jr nz,^r|12/7"),
    (0x21, "ld hl,^W|10"), (0x22, "ld (^W),hl|16"), (0x23, "inc hl|6"), (0x24, "inc h"),
    (0x25, "dec h"), (0x26, "ld h,^B|7"), (0x27, "daa"), (0x28, "jr z,^r|12/7"),
    (0x29, "add hl,hl|11"), (0x2A, "ld hl,(^W)|16"), (0x2B, "dec hl|6"), (0x2C, "inc l"),
    (0x2D, "dec l"), (0x2E, "ld l,^B|7"), (0x2F, "cpl"), (0x30, "jr nc,^r|12/7"),
    (0x31, "ld sp,^W|10"), (0x32, "ld (^W),a|13"), (0x33, "inc sp|6"), (0x34, "inc (hl)|11"),
    (0x35, "dec (hl)|11"), (0x36, "ld (hl),^B|10"), (0x37, "scf"), (0x38, "jr c,^r|12/7"),
    (0x39, "add hl,sp|11"), (0x3A, "ld a,(^W)|13"), (0x3B, "dec sp|6"), (0x3C, "inc a"),
    (0x3D, "dec a"), (0x3E, "ld a,^B|7"), (0x3F, "ccf"), (0x40, "ld b,b"), (0x41, "ld b,c"),
    (0x42, "ld b,d"), (0x43, "ld b,e"), (0x44, "ld b,h"), (0x45, "ld b,l"),
    (0x46, "ld b,(hl)|7"), (0x47, "ld b,a"), (0x48, "ld c,b"), (0x49, "ld c,c"),
    (0x4A, "ld c,d"), (0x4B, "ld c,e"), (0x4C, "ld c,h"), (0x4D, "ld c,l"),
    (0x4E, "ld c,(hl)|7"), (0x4F, "ld c,a"), (0x50, "ld d,b"), (0x51, "ld d,c"),
    (0x52, "ld d,d"), (0x53, "ld d,e"), (0x54, "ld d,h"), (0x55, "ld d,l"),
    (0x56, "ld d,(hl)|7"), (0x57, "ld d,a"), (0x58, "ld e,b"), (0x59, "ld e,c"),
    (0x5A, "ld e,d"), (0x5B, "ld e,e"), (0x5C, "ld e,h"), (0x5D, "ld e,l"),
    (0x5E, "ld e,(hl)|7"), (0x5F, "ld e,a"), (0x60, "ld h,b"), (0x61, "ld h,c"),
    (0x62, "ld h,d"), (0x63, "ld h,e"), (0x64, "ld h,h"), (0x65, "ld h,l"),
    (0x66, "ld h,(hl)|7"), (0x67, "ld h,a"), (0x68, "ld l,b"), (0x69, "ld l,c"),
    (0x6A, "ld l,d"), (0x6B, "ld l,e"), (0x6C, "ld l,h"), (0x6D, "ld l,l"),
    (0x6E, "ld l,(hl)|7"), (0x6F, "ld l,a"), (0x70, "ld (hl),b|7"), (0x71, "ld (hl),c|7"),
    (0x72, "ld (hl),d|7"), (0x73, "ld (hl),e|7"), (0x74, "ld (hl),h|7"), (0x75, "ld (hl),l|7"),
    (0x76, "halt"), (0x77, "ld (hl),a|7"), (0x78, "ld a,b"), (0x79, "ld a,c"), (0x7A, "ld a,d"),
    (0x7B, "ld a,e"), (0x7C, "ld a,h"), (0x7D, "ld a,l"), (0x7E, "ld a,(hl)|7"),
    (0x7F, "ld a,a"), (0x80, "add a,b"), (0x81, "add a,c"), (0x82, "add a,d"),
    (0x83, "add a,e"), (0x84, "add a,h"), (0x85, "add a,l"), (0x86, "add a,(hl)|7"),
    (0x87, "add a,a"), (0x88, "adc a,b"), (0x89, "adc a,c"), (0x8A, "adc a,d"),
    (0x8B, "adc a,e"), (0x8C, "adc a,h"), (0x8D, "adc a,l"), (0x8E, "adc a,(hl)|7"),
    (0x8F, "adc a,a"), (0x90, "sub b"), (0x91, "sub c"), (0x92, "sub d"), (0x93, "sub e"),
    (0x94, "sub h"), (0x95, "sub l"), (0x96, "sub (hl)|7"), (0x97, "sub a"), (0x98, "sbc a,b"),
    (0x99, "sbc a,c"), (0x9A, "sbc a,d"), (0x9B, "sbc a,e"), (0x9C, "sbc a,h"),
    (0x9D, "sbc a,l"), (0x9E, "sbc a,(hl)|7"), (0x9F, "sbc a,a"), (0xA0, "and b"),
    (0xA1, "and c"), (0xA2, "and d"), (0xA3, "and e"), (0xA4, "and h"), (0xA5, "and l"),
    (0xA6, "and (hl)|7"), (0xA7, "and a"), (0xA8, "xor b"), (0xA9, "xor c"), (0xAA, "xor d"),
    (0xAB, "xor e"), (0xAC, "xor h"), (0xAD, "xor l"), (0xAE, "xor (hl)|7"), (0xAF, "xor a"),
    (0xB0, "or b"), (0xB1, "or c"), (0xB2, "or d"), (0xB3, "or e"), (0xB4, "or h"),
    (0xB5, "or l"), (0xB6, "or (hl)|7"), (0xB7, "or a"), (0xB8, "cp b"), (0xB9, "cp c"),
    (0xBA, "cp d"), (0xBB, "cp e"), (0xBC, "cp h"), (0xBD, "cp l"), (0xBE, "cp (hl)|7"),
    (0xBF, "cp a"), (0xC0, "ret nz|11/5"), (0xC1, "pop bc|10"), (0xC2, "jp nz,^L|10"),
    (0xC3, "jp ^L|10"), (0xC4, "call nz,^L|17/10"), (0xC5, "push bc|11"), (0xC6, "add a,^B|7"),
    (0xC7, "rst ^R|11"), (0xC8, "ret z|11/5"), (0xC9, "ret|10"), (0xCA, "jp z,^L|10"),
    (0xCC, "call z,^L|17/10"), (0xCD, "call ^L|17"), (0xCE, "adc a,^B|7"), (0xCF, "rst ^R|11"),
    (0xD0, "ret nc|11/5"), (0xD1, "pop de|10"), (0xD2, "jp nc,^L|10"), (0xD3, "out (^B),a|11"),
    (0xD4, "call nc,^L|17/10"), (0xD5, "push de|11"), (0xD6, "sub ^B|7"), (0xD7, "rst ^R|11"),
    (0xD8, "ret c|11/5"), (0xD9, "exx"), (0xDA, "jp c,^L|10"), (0xDB, "in a,(^B)|11"),
    (0xDC, "call c,^L|17/10"), (0xDE, "sbc a,^B|7"), (0xDF, "rst ^R|11"), (0xE0, "ret po|11/5"),
    (0xE1, "pop hl|10"), (0xE2, "jp po,^L|10"), (0xE3, "ex (sp),hl|19"),
    (0xE4, "call po,^L|17/10"), (0xE5, "push hl|11"), (0xE6, "and ^B|7"), (0xE7, "rst ^R|11"),
    (0xE8, "ret pe|11/5"), (0xE9, "jp (hl)"), (0xEA, "jp pe,^L|10"), (0xEB, "ex de,hl"),
    (0xEC, "call pe,^L|17/10"), (0xEE, "xor ^B|7"), (0xEF, "rst ^R|11"), (0xF0, "ret p|11/5"),
    (0xF1, "pop af|10"), (0xF2, "jp p,^L|10"), (0xF3, "di"), (0xF4, "call p,^L|17/10"),
    (0xF5, "push af|11"), (0xF6, "or ^B|7"), (0xF7, "rst ^R|11"), (0xF8, "ret m|11/5"),
    (0xF9, "ld sp,hl|6"), (0xFA, "jp m,^L|10"), (0xFB, "ei"), (0xFC, "call m,^L|17/10"),
    (0xFE, "cp ^B|7"), (0xFF, "rst ^R|11")
  ]

/-- The opcodes after `ED` that only the Spectrum Next has. -/
def nextOpcodes : List Nat :=
  [
    0x23, 0x24, 0x27, 0x28, 0x29, 0x2A, 0x2B, 0x2C, 0x30, 0x31, 0x32, 0x33, 0x34, 0x35, 0x36,
    0x8A, 0x90, 0x91, 0x92, 0x93, 0x94, 0x95, 0x98, 0xA4, 0xA5, 0xAC, 0xB4, 0xB7, 0xBC
  ]

def extendedPatterns : List (Nat × String) :=
  [
    (0x23, "swapnib"), (0x24, "mirror a"), (0x27, "test ^B|11"), (0x28, "bsla de,b"),
    (0x29, "bsra de,b"), (0x2A, "bsrl de,b"), (0x2B, "bsrf de,b"), (0x2C, "brlc de,b"),
    (0x30, "mul d,e"), (0x31, "add hl,a"), (0x32, "add de,a"), (0x33, "add bc,a"),
    (0x34, "add hl,^W|16"), (0x35, "add de,^W|16"), (0x36, "add bc,^W|16"),
    (0x40, "in b,(c)|12"), (0x41, "out (c),b|12"), (0x42, "sbc hl,bc|15"),
    (0x43, "ld (^W),bc|20"), (0x44, "neg"), (0x45, "retn|14"), (0x46, "im 0"),
    (0x47, "ld i,a|9"), (0x48, "in c,(c)|12"), (0x49, "out (c),c|12"), (0x4A, "adc hl,bc|15"),
    (0x4B, "ld bc,(^W)|20"), (0x4C, "neg"), (0x4D, "reti|14"), (0x4E, "im 0"),
    (0x4F, "ld r,a|9"), (0x50, "in d,(c)|12"), (0x51, "out (c),d|12"), (0x52, "sbc hl,de|15"),
    (0x53, "ld (^W),de|20"), (0x54, "neg"), (0x55, "retn|14"), (0x56, "im 1"),
    (0x57, "ld a,i|9"), (0x58, "in e,(c)|12"), (0x59, "out (c),e|12"), (0x5A, "adc hl,de|15"),
    (0x5B, "ld de,(^W)|20"), (0x5C, "neg"), (0x5D, "retn|14"), (0x5E, "im 2"),
    (0x5F, "ld a,r|9"), (0x60, "in h,(c)|12"), (0x61, "out (c),h|12"), (0x62, "sbc hl,hl|15"),
    (0x63, "ld (^W),hl|20"), (0x64, "neg"), (0x65, "retn|14"), (0x66, "im 0"), (0x67, "rrd|18"),
    (0x68, "in l,(c)|12"), (0x69, "out (c),l|12"), (0x6A, "adc hl,hl|15"),
    (0x6B, "ld hl,(^W)|20"), (0x6C, "neg"), (0x6D, "retn|14"), (0x6E, "im 0"), (0x6F, "rld|18"),
    (0x70, "in (c)|12"), (0x71, "out (c),0|12"), (0x72, "sbc hl,sp|15"),
    (0x73, "ld (^W),sp|20"), (0x74, "neg"), (0x75, "retn|14"), (0x76, "im 1"),
    (0x78, "in a,(c)|12"), (0x79, "out (c),a|12"), (0x7A, "adc hl,sp|15"),
    (0x7B, "ld sp,(^W)|20"), (0x7C, "neg"), (0x7D, "retn|14"), (0x7E, "im 2"),
    (0x8A, "push ^w|23"), (0x90, "outinb|16"), (0x91, "nextreg ^N,^B|20"),
    (0x92, "nextreg ^N,a|17"), (0x93, "pixeldn"), (0x94, "pixelad"), (0x95, "setae"),
    (0x98, "jp (c)|13"), (0xA0, "ldi|16"), (0xA1, "cpi|16"), (0xA2, "ini|16"),
    (0xA3, "outi|16"), (0xA4, "ldix|16"), (0xA5, "ldws|14"), (0xA8, "ldd|16"), (0xA9, "cpd|16"),
    (0xAA, "ind|16"), (0xAB, "outd|16"), (0xAC, "lddx|16"), (0xB0, "ldir|21/16"),
    (0xB1, "cpir|21/16"), (0xB2, "inir|21/16"), (0xB3, "otir|21/16"), (0xB4, "ldirx|21/16"),
    (0xB7, "ldpirx|21/16"), (0xB8, "lddr|21/16"), (0xB9, "cpdr|21/16"), (0xBA, "indr|21/16"),
    (0xBB, "otdr|21/16"), (0xBC, "lddrx|21/16")
  ]

/-- The patterns that differ from those without a prefix. -/
def indexedPatterns : List (Nat × String) :=
  [
    (0x09, "add ^X,bc|15"), (0x19, "add ^X,de|15"), (0x21, "ld ^X,^W|14"),
    (0x22, "ld (^W),^X|20"), (0x23, "inc ^X|10"), (0x24, "inc ^h"), (0x25, "dec ^h"),
    (0x26, "ld ^h,^B|11"), (0x29, "add ^X,^X|15"), (0x2A, "ld ^X,(^W)|20"), (0x2B, "dec ^X|10"),
    (0x2C, "inc ^l"), (0x2D, "dec ^l"), (0x2E, "ld ^l,^B|11"), (0x34, "inc (^X^D)|23"),
    (0x35, "dec (^X^D)|23"), (0x36, "ld (^X^D),^B|19"), (0x39, "add ^X,sp|15"),
    (0x44, "ld b,^h"), (0x45, "ld b,^l"), (0x46, "ld b,(^X^D)|19"), (0x4C, "ld c,^h"),
    (0x4D, "ld c,^l"), (0x4E, "ld c,(^X^D)|19"), (0x54, "ld d,^h"), (0x55, "ld d,^l"),
    (0x56, "ld d,(^X^D)|19"), (0x5C, "ld e,^h"), (0x5D, "ld e,^l"), (0x5E, "ld e,(^X^D)|19"),
    (0x60, "ld ^h,b"), (0x61, "ld ^h,c"), (0x62, "ld ^h,d"), (0x63, "ld ^h,e"),
    (0x64, "ld ^h,^h"), (0x65, "ld ^h,^l"), (0x66, "ld h,(^X^D)|19"), (0x67, "ld ^h,a"),
    (0x68, "ld ^l,b"), (0x69, "ld ^l,c"), (0x6A, "ld ^l,d"), (0x6B, "ld ^l,e"),
    (0x6C, "ld ^l,^h"), (0x6D, "ld ^l,^l"), (0x6E, "ld l,(^X^D)|19"), (0x6F, "ld ^l,a"),
    (0x70, "ld (^X^D),b|19"), (0x71, "ld (^X^D),c|19"), (0x72, "ld (^X^D),d|19"),
    (0x73, "ld (^X^D),e|19"), (0x74, "ld (^X^D),h|19"), (0x75, "ld (^X^D),l|19"),
    (0x77, "ld (^X^D),a|19"), (0x7C, "ld a,^h"), (0x7D, "ld a,^l"), (0x7E, "ld a,(^X^D)|19"),
    (0x84, "add a,^h"), (0x85, "add a,^l"), (0x86, "add a,(^X^D)|19"), (0x8C, "adc a,^h"),
    (0x8D, "adc a,^l"), (0x8E, "adc a,(^X^D)|19"), (0x94, "sub ^h"), (0x95, "sub ^l"),
    (0x96, "sub (^X^D)|19"), (0x9C, "sbc a,^h"), (0x9D, "sbc a,^l"), (0x9E, "sbc a,(^X^D)|19"),
    (0xA4, "and ^h"), (0xA5, "and ^l"), (0xA6, "and (^X^D)|19"), (0xAC, "xor ^h"),
    (0xAD, "xor ^l"), (0xAE, "xor (^X^D)|19"), (0xB4, "or ^h"), (0xB5, "or ^l"),
    (0xB6, "or (^X^D)|19"), (0xBC, "cp ^h"), (0xBD, "cp ^l"), (0xBE, "cp (^X^D)|19"),
    (0xE1, "pop ^X|14"), (0xE3, "ex (sp),^X|23"), (0xE5, "push ^X|15"), (0xE9, "jp (^X)"),
    (0xF9, "ld sp,^X|10")
  ]

end RomListing.Z80
