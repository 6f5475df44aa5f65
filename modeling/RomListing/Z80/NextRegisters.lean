/-!
# Spectrum Next registers
-/

namespace RomListing.Z80

def nextRegisters : List (Nat × String) :=
  [
    (0x00, "Machine ID"), (0x01, "Core Version"), (0x02, "Reset"), (0x03, "Machine Type"),
    (0x04, "Config Mapping"), (0x05, "Peripheral 1 Setting"), (0x06, "Peripheral 2 Setting"),
    (0x07, "CPU speed"), (0x08, "Peripheral 3 Setting"), (0x09, "Peripheral 4 Setting"),
    (0x0A, "Peripheral 5 Setting"), (0x0B, "Joystick I/O Mode"), (0x0E, "Core Version"),
    (0x0F, "Board ID"), (0x10, "Core Boot"), (0x11, "Video Timing"),
    (0x12, "Layer 2 Active RAM bank"), (0x13, "Layer 2 Shadow RAM bank"),
    (0x14, "Global Transparency Colour"), (0x15, "Sprite and Layers System"),
    (0x16, "Layer2 X Scroll LSB"), (0x17, "Layer2 Y Scroll"), (0x18, "Clip Window Layer 2"),
    (0x19, "Clip Window Sprites"), (0x1A, "Clip Window ULA"), (0x1B, "Clip Window Tilemap"),
    (0x1C, "Clip Window control"), (0x1E, "Active video line MSB"),
    (0x1F, "Active video line LSB"), (0x20, "Generate Maskable Interrupt"),
    (0x22, "Line Interrupt control"), (0x23, "Line Interrupt Value LSB"), (0x24, "Reserved"),
    (0x26, "ULA X Scroll"), (0x27, "ULA Y Scroll"), (0x28, "PS/2 Keymap Address MSB"),
    (0x29, "PS/2 Keymap Address LSB"), (0x2A, "PS/2 Keymap Data MSB"),
    (0x2B, "PS/2 Keymap Data LSB"), (0x2C, "DAC B Mirror (left)"),
    (0x2D, "DAC A+D Mirror (mono)"), (0x2E, "DAC C Mirror (right)"),
    (0x2F, "Tilemap X Scroll MSB"), (0x30, "Tilemap X Scroll LSB"), (0x31, "Tilemap Offset Y"),
    (0x32, "LoRes X Scroll"), (0x33, "LoRes Y Scroll"), (0x34, "Sprite Number"),
    (0x35, "Sprite Attribute 0"), (0x75, "Sprite Attribute 0 (automatic increment)"),
    (0x36, "Sprite Attribute 1"), (0x76, "Sprite Attribute 1  (automatic increment)"),
    (0x37, "Sprite Attribute 2"), (0x77, "Sprite Attribute 2 (automatic increment)"),
    (0x38, "Sprite Attribute 3"), (0x78, "Sprite Attribute 3 (automatic increment)"),
    (0x39, "Sprite Attribute 4"), (0x79, "Sprite Attribute 4 (automatic increment)"),
    (0x40, "Palette Index"), (0x41, "Palette Value (8 bit)"),
    (0x42, "ULANext Attribute Byte Format"), (0x43, "Palette Control"),
    (0x44, "Palette Value (9 bit)"), (0x4A, "Fallback Colour"),
    (0x4B, "Sprite Transparency Index"), (0x4C, "Tilemap Transparency Index"), (0x50, "MMU 0"),
    (0x51, "MMU 1"), (0x52, "MMU 2"), (0x53, "MMU 3"), (0x54, "MMU 4"), (0x55, "MMU 5"),
    (0x56, "MMU 6"), (0x57, "MMU 7"), (0x60, "Copper Data 8-bit Write"),
    (0x61, "Copper Address LSB"), (0x62, "Copper Control"), (0x63, "Copper Data 16-bit Write"),
    (0x64, "Vertical Line Count Offset"), (0x68, "ULA Control"), (0x69, "Display Control 1"),
    (0x6A, "LoRes Control"), (0x6B, "Tilemap Control"), (0x6C, "Default Tilemap Attribute"),
    (0x6E, "Tilemap Base Address"), (0x6F, "Tile Definitions Base Address"),
    (0x70, "Layer 2 Control"), (0x71, "Layer 2 X Scroll MSB"), (0x7F, "User Register 0"),
    (0x80, "Expansion Bus Enable"), (0x81, "Expansion Bus Control"),
    (0x82, "Internal Port Decoding Enables #1 (LSB)"),
    (0x83, "Internal Port Decoding Enables #2"), (0x84, "Internal Port Decoding Enables #3"),
    (0x85, "Internal Port Decoding Enables #4 (MSB)"),
    (0x86, "Expansion Bus Decoding Enables #1 (LSB)"),
    (0x87, "Expansion Bus Decoding Enables #2"), (0x88, "Expansion Bus Decoding Enables #3"),
    (0x89, "Expansion Bus Decoding Enables #4 (MSB)"), (0x8A, "Expansion Bus IO Propagate"),
    (0x8C, "Alternate ROM"), (0x8E, "Spectrum 128K Memory Mapping"),
    (0x8F, "Memory Mapping Mode"), (0x90, "PI GPIO Output Enable #1 (LSB)"),
    (0x91, "PI GPIO Output Enable #2"), (0x92, "PI GPIO Output Enable #3"),
    (0x93, "PI GPIO Output Enable #4 (MSB)"), (0x98, "PI GPIO #1 (LSB)"), (0x99, "PI GPIO #2"),
    (0x9A, "PI GPIO #3"), (0x9B, "PI GPIO #4 (LSB)"), (0xA0, "PI Peripheral Enable"),
    (0xA2, "PI I2S Audio Control"), (0xA8, "ESP Wifi GPIO Output Enable"),
    (0xA9, "ESP Wifi GPIO"), (0xB0, "Extended Keys 0"), (0xB1, "Extended Keys 1"),
    (0xB2, "Extended MD Pad Buttons"), (0xB8, "DivMMC Entry Points 0"),
    (0xB9, "DivMMC Entry Points Valid 0"), (0xBA, "DivMMC Entry Points Timing 0"),
    (0xBB, "DivMMC Entry Points 1"), (0xC0, "Interrupt Control"),
    (0xC2, "NMI Return Address LSB"), (0xC3, "NMI Return Address MSB"),
    (0xC4, "Interrupt Enable 0"), (0xC5, "Interrupt Enable 1"), (0xC6, "Interrupt Enable 2"),
    (0xC8, "Interrupt Status 0"), (0xC9, "Interrupt Status 1"), (0xCA, "Interrupt Status 2"),
    (0xCC, "DMA Interrupt Enable 0"), (0xCD, "DMA Interrupt Enable 1"),
    (0xCE, "DMA Interrupt Enable 2"), (0xD8, "I/O Traps (experimental)"),
    (0xD9, "I/O Trap Write (experimental)"), (0xDA, "I/O Trap Cause (experimental)"),
    (0xF0, "XDEV CMD"), (0xF8, "XADC REG"), (0xF9, "XADC D0"), (0xFA, "XADC D1")
  ]

end RomListing.Z80
