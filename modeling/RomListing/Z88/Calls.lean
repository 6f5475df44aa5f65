/-!
# System calls of the Cambridge Z88
-/

namespace RomListing.Z88

def floatCalls : List (Nat × String) :=
  [
    (0x21, "FP_AND"), (0x24, "FP_IDV"), (0x27, "FP_EOR"), (0x2A, "FP_MOD"), (0x2D, "FP_OR"),
    (0x30, "FP_LEQ"), (0x33, "FP_NEQ"), (0x36, "FP_GEQ"), (0x39, "FP_LT"), (0x3C, "FP_EQ"),
    (0x3F, "FP_MUL"), (0x42, "FP_ADD"), (0x45, "FP_GT"), (0x48, "FP_SUB"), (0x4B, "FP_PWR"),
    (0x4E, "FP_DIV"), (0x51, "FP_ABS"), (0x54, "FP_ACS"), (0x57, "FP_ASN"), (0x5A, "FP_ATN"),
    (0x5D, "FP_COS"), (0x60, "FP_DEG"), (0x63, "FP_EXP"), (0x66, "FP_INT"), (0x6C, "FP_LOG"),
    (0x6F, "FP_NOT"), (0x72, "FP_RAD"), (0x75, "FP_SGN"), (0x78, "FP_SIN"), (0x7B, "FP_SQR"),
    (0x7E, "FP_TAN"), (0x81, "FP_ZER"), (0x84, "FP_ONE"), (0x87, "FP_TRU"), (0x8A, "FP_PI"),
    (0x8D, "FP_VAL"), (0x90, "FP_STR"), (0x93, "FP_FIX"), (0x96, "FP_FLT"), (0x9C, "FP_CMP"),
    (0x9F, "FP_NEG"), (0xA2, "FP_BAS")
  ]

/-- The calls of the operating system. A call of two bytes has the second one as its
high byte. -/
def systemCalls : List (Nat × String) :=
  [
    (0x0021, "OS_BYE"), (0x0024, "OS_PRT"), (0x0027, "OS_OUT"), (0x002A, "OS_IN"),
    (0x002D, "OS_TIN"), (0x0030, "OS_XIN"), (0x0033, "OS_PUR"), (0x0036, "OS_UGB"),
    (0x0039, "OS_GB"), (0x003C, "OS_PB"), (0x003F, "OS_GBT"), (0x0042, "OS_PBT"),
    (0x0045, "OS_MV"), (0x0048, "OS_FRM"), (0x004B, "OS_FWM"), (0x004E, "OS_MOP"),
    (0x0051, "OS_MCL"), (0x0054, "OS_MAL"), (0x0057, "OS_MFR"), (0x005A, "OS_MGB"),
    (0x005D, "OS_MPB"), (0x0060, "OS_BIX"), (0x0063, "OS_BOX"), (0x0066, "OS_NQ"),
    (0x0069, "OS_SP"), (0x006C, "OS_SR"), (0x006F, "OS_ESC"), (0x0072, "OS_ERC"),
    (0x0075, "OS_ERH"), (0x0078, "OS_UST"), (0x007B, "OS_FN"), (0x007E, "OS_WAIT"),
    (0x0081, "OS_ALM"), (0x0084, "OS_CLI"), (0x0087, "OS_DOR"), (0x008A, "OS_FC"),
    (0x008D, "OS_SI"), (0x0090, "OS_BOUT"), (0x0093, "OS_POUT"), (0x0096, "OS_HOUT"),
    (0x0099, "OS_SOUT"), (0x009C, "OS_KIN"), (0x009F, "OS_NLN"), (0xB606, "OS_FAT"),
    (0xB806, "OS_ISO"), (0xBA06, "OS_FDP"), (0xBC06, "OS_WTS"), (0xC006, "OS_FXM"),
    (0xC206, "OS_AXM"), (0xC406, "OS_FMA"), (0xC606, "OS_PLOZ"), (0xC806, "OS_FEP"),
    (0xCA06, "OS_WTB"), (0xCC06, "OS_WRT"), (0xCE06, "OS_WSQ"), (0xD006, "OS_ISQ"),
    (0xD206, "OS_AXP"), (0xD406, "OS_SCI"), (0xD606, "OS_DLY"), (0xD806, "OS_BLP"),
    (0xDA06, "OS_BDE"), (0xDC06, "OS_BHL"), (0xDE06, "OS_FTH"), (0xE006, "OS_VTH"),
    (0xE206, "OS_GTH"), (0xE406, "OS_REN"), (0xE606, "OS_DEL"), (0xE806, "OS_CL"),
    (0xEA06, "OS_OP"), (0xEC06, "OS_OFF"), (0xEE06, "OS_USE"), (0xF006, "OS_EPR"),
    (0xF206, "OS_HT"), (0xF406, "OS_MAP"), (0xF606, "OS_EXIT"), (0xF806, "OS_STK"),
    (0xFA06, "OS_POLL"), (0xFC06, "OS_???"), (0xFE06, "OS_DOM"), (0x0609, "GN_GDT"),
    (0x0809, "GN_PDT"), (0x0A09, "GN_GTM"), (0x0C09, "GN_PTM"), (0x0E09, "GN_SDO"),
    (0x1009, "GN_GDN"), (0x1209, "GN_PDN"), (0x1409, "GN_DIE"), (0x1609, "GN_DEI"),
    (0x1809, "GN_GMD"), (0x1A09, "GN_GMT"), (0x1C09, "GN_PMD"), (0x1E09, "GN_PMT"),
    (0x2009, "GN_MSC"), (0x2209, "GN_FLO"), (0x2409, "GN_FLC"), (0x2609, "GN_FLW"),
    (0x2809, "GN_FLR"), (0x2A09, "GN_FLF"), (0x2C09, "GN_FPB"), (0x2E09, "GN_NLN"),
    (0x3009, "GN_CLS"), (0x3209, "GN_SKC"), (0x3409, "GN_SKF"), (0x3609, "GN_SKT"),
    (0x3809, "GN_SIP"), (0x3A09, "GN_SOP"), (0x3C09, "GN_SOE"), (0x3E09, "GN_RBE"),
    (0x4009, "GN_WBE"), (0x4209, "GN_CME"), (0x4409, "GN_XNX"), (0x4609, "GN_XIN"),
    (0x4809, "GN_XDL"), (0x4A09, "GN_ERR"), (0x4C09, "GN_ESP"), (0x4E09, "GN_FCM"),
    (0x5009, "GN_FEX"), (0x5209, "GN_OPW"), (0x5409, "GN_WCL"), (0x5609, "GN_WFN"),
    (0x5809, "GN_PRS"), (0x5A09, "GN_PFS"), (0x5C09, "GN_WSM"), (0x5E09, "GN_ESA"),
    (0x6009, "GN_OPF"), (0x6209, "GN_CL"), (0x6409, "GN_DEL"), (0x6609, "GN_REN"),
    (0x6809, "GN_AAB"), (0x6A09, "GN_FAB"), (0x6C09, "GN_LAB"), (0x6E09, "GN_UAB"),
    (0x7009, "GN_ALP"), (0x7209, "GN_M16"), (0x7409, "GN_D16"), (0x7609, "GN_M24"),
    (0x7809, "GN_D24"), (0x7A09, "GN_WIN"), (0x7C09, "GN_CRC"), (0x7E09, "GN_GAB"),
    (0x8009, "GN_LDM"), (0x8209, "GN_ELF"), (0x8409, "GN_GHN"), (0x8609, "GN_PHN"),
    (0x8809, "GN_DIR"), (0x8A09, "GN_MOV"), (0x8C09, "GN_CPY"), (0x8E09, "GN_LUT"),
    (0x060C, "DC_INI"), (0x080C, "DC_BYE"), (0x0A0C, "DC_ENT"), (0x0C0C, "DC_NAM"),
    (0x0E0C, "DC_IN"), (0x100C, "DC_OUT"), (0x120C, "DC_PRT"), (0x140C, "DC_ICL"),
    (0x160C, "DC_NQ"), (0x180C, "DC_SP"), (0x1A0C, "DC_ALT"), (0x1C0C, "DC_RBD"),
    (0x1E0C, "DC_XIN"), (0x200C, "DC_GEN"), (0x220C, "DC_POL"), (0x240C, "DC_RTE"),
    (0x260C, "DC_ELF"), (0x280C, "DC_DBG"), (0x2A0C, "DC_DIS"), (0x2C0C, "DC_SBP"),
    (0x2E0C, "DC_RBP"), (0x300C, "DC_LCK")
  ]

end RomListing.Z88
