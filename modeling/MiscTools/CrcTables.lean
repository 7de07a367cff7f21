import MiscTools.Crc

/-!
# The CRC-32C tables

The nine tables of the CRC-32C half of `crc32.c`, as they stand there,
and what they hold: for each octet, the register that starts from it
after one more zero octet (`o32`, and the table of the byte loop) up to
eight (`o88`). Each table is the one before it moved on by an octet, so
`Slice.next` carries the first to all of them.
-/

namespace MiscTools.Crc32

/-- The generator polynomial `0x1EDC6F41`, reflected. -/
def crc32cPoly : BitVec 32 := BitVec.reverse 0x1EDC6F41#32

def crc32cTable : List (BitVec 32) := [
  0x00000000#32, 0xF26B8303#32, 0xE13B70F7#32, 0x1350F3F4#32, 0xC79A971F#32, 0x35F1141C#32,
  0x26A1E7E8#32, 0xD4CA64EB#32, 0x8AD958CF#32, 0x78B2DBCC#32, 0x6BE22838#32, 0x9989AB3B#32,
  0x4D43CFD0#32, 0xBF284CD3#32, 0xAC78BF27#32, 0x5E133C24#32, 0x105EC76F#32, 0xE235446C#32,
  0xF165B798#32, 0x030E349B#32, 0xD7C45070#32, 0x25AFD373#32, 0x36FF2087#32, 0xC494A384#32,
  0x9A879FA0#32, 0x68EC1CA3#32, 0x7BBCEF57#32, 0x89D76C54#32, 0x5D1D08BF#32, 0xAF768BBC#32,
  0xBC267848#32, 0x4E4DFB4B#32, 0x20BD8EDE#32, 0xD2D60DDD#32, 0xC186FE29#32, 0x33ED7D2A#32,
  0xE72719C1#32, 0x154C9AC2#32, 0x061C6936#32, 0xF477EA35#32, 0xAA64D611#32, 0x580F5512#32,
  0x4B5FA6E6#32, 0xB93425E5#32, 0x6DFE410E#32, 0x9F95C20D#32, 0x8CC531F9#32, 0x7EAEB2FA#32,
  0x30E349B1#32, 0xC288CAB2#32, 0xD1D83946#32, 0x23B3BA45#32, 0xF779DEAE#32, 0x05125DAD#32,
  0x1642AE59#32, 0xE4292D5A#32, 0xBA3A117E#32, 0x4851927D#32, 0x5B016189#32, 0xA96AE28A#32,
  0x7DA08661#32, 0x8FCB0562#32, 0x9C9BF696#32, 0x6EF07595#32, 0x417B1DBC#32, 0xB3109EBF#32,
  0xA0406D4B#32, 0x522BEE48#32, 0x86E18AA3#32, 0x748A09A0#32, 0x67DAFA54#32, 0x95B17957#32,
  0xCBA24573#32, 0x39C9C670#32, 0x2A993584#32, 0xD8F2B687#32, 0x0C38D26C#32, 0xFE53516F#32,
  0xED03A29B#32, 0x1F682198#32, 0x5125DAD3#32, 0xA34E59D0#32, 0xB01EAA24#32, 0x42752927#32,
  0x96BF4DCC#32, 0x64D4CECF#32, 0x77843D3B#32, 0x85EFBE38#32, 0xDBFC821C#32, 0x2997011F#32,
  0x3AC7F2EB#32, 0xC8AC71E8#32, 0x1C661503#32, 0xEE0D9600#32, 0xFD5D65F4#32, 0x0F36E6F7#32,
  0x61C69362#32, 0x93AD1061#32, 0x80FDE395#32, 0x72966096#32, 0xA65C047D#32, 0x5437877E#32,
  0x4767748A#32, 0xB50CF789#32, 0xEB1FCBAD#32, 0x197448AE#32, 0x0A24BB5A#32, 0xF84F3859#32,
  0x2C855CB2#32, 0xDEEEDFB1#32, 0xCDBE2C45#32, 0x3FD5AF46#32, 0x7198540D#32, 0x83F3D70E#32,
  0x90A324FA#32, 0x62C8A7F9#32, 0xB602C312#32, 0x44694011#32, 0x5739B3E5#32, 0xA55230E6#32,
  0xFB410CC2#32, 0x092A8FC1#32, 0x1A7A7C35#32, 0xE811FF36#32, 0x3CDB9BDD#32, 0xCEB018DE#32,
  0xDDE0EB2A#32, 0x2F8B6829#32, 0x82F63B78#32, 0x709DB87B#32, 0x63CD4B8F#32, 0x91A6C88C#32,
  0x456CAC67#32, 0xB7072F64#32, 0xA457DC90#32, 0x563C5F93#32, 0x082F63B7#32, 0xFA44E0B4#32,
  0xE9141340#32, 0x1B7F9043#32, 0xCFB5F4A8#32, 0x3DDE77AB#32, 0x2E8E845F#32, 0xDCE5075C#32,
  0x92A8FC17#32, 0x60C37F14#32, 0x73938CE0#32, 0x81F80FE3#32, 0x55326B08#32, 0xA759E80B#32,
  0xB4091BFF#32, 0x466298FC#32, 0x1871A4D8#32, 0xEA1A27DB#32, 0xF94AD42F#32, 0x0B21572C#32,
  0xDFEB33C7#32, 0x2D80B0C4#32, 0x3ED04330#32, 0xCCBBC033#32, 0xA24BB5A6#32, 0x502036A5#32,
  0x4370C551#32, 0xB11B4652#32, 0x65D122B9#32, 0x97BAA1BA#32, 0x84EA524E#32, 0x7681D14D#32,
  0x2892ED69#32, 0xDAF96E6A#32, 0xC9A99D9E#32, 0x3BC21E9D#32, 0xEF087A76#32, 0x1D63F975#32,
  0x0E330A81#32, 0xFC588982#32, 0xB21572C9#32, 0x407EF1CA#32, 0x532E023E#32, 0xA145813D#32,
  0x758FE5D6#32, 0x87E466D5#32, 0x94B49521#32, 0x66DF1622#32, 0x38CC2A06#32, 0xCAA7A905#32,
  0xD9F75AF1#32, 0x2B9CD9F2#32, 0xFF56BD19#32, 0x0D3D3E1A#32, 0x1E6DCDEE#32, 0xEC064EED#32,
  0xC38D26C4#32, 0x31E6A5C7#32, 0x22B65633#32, 0xD0DDD530#32, 0x0417B1DB#32, 0xF67C32D8#32,
  0xE52CC12C#32, 0x1747422F#32, 0x49547E0B#32, 0xBB3FFD08#32, 0xA86F0EFC#32, 0x5A048DFF#32,
  0x8ECEE914#32, 0x7CA56A17#32, 0x6FF599E3#32, 0x9D9E1AE0#32, 0xD3D3E1AB#32, 0x21B862A8#32,
  0x32E8915C#32, 0xC083125F#32, 0x144976B4#32, 0xE622F5B7#32, 0xF5720643#32, 0x07198540#32,
  0x590AB964#32, 0xAB613A67#32, 0xB831C993#32, 0x4A5A4A90#32, 0x9E902E7B#32, 0x6CFBAD78#32,
  0x7FAB5E8C#32, 0x8DC0DD8F#32, 0xE330A81A#32, 0x115B2B19#32, 0x020BD8ED#32, 0xF0605BEE#32,
  0x24AA3F05#32, 0xD6C1BC06#32, 0xC5914FF2#32, 0x37FACCF1#32, 0x69E9F0D5#32, 0x9B8273D6#32,
  0x88D28022#32, 0x7AB90321#32, 0xAE7367CA#32, 0x5C18E4C9#32, 0x4F48173D#32, 0xBD23943E#32,
  0xF36E6F75#32, 0x0105EC76#32, 0x12551F82#32, 0xE03E9C81#32, 0x34F4F86A#32, 0xC69F7B69#32,
  0xD5CF889D#32, 0x27A40B9E#32, 0x79B737BA#32, 0x8BDCB4B9#32, 0x988C474D#32, 0x6AE7C44E#32,
  0xBE2DA0A5#32, 0x4C4623A6#32, 0x5F16D052#32, 0xAD7D5351#32]

def sctpCrcTableil8O32 : List (BitVec 32) := [
  0x00000000#32, 0xF26B8303#32, 0xE13B70F7#32, 0x1350F3F4#32, 0xC79A971F#32, 0x35F1141C#32,
  0x26A1E7E8#32, 0xD4CA64EB#32, 0x8AD958CF#32, 0x78B2DBCC#32, 0x6BE22838#32, 0x9989AB3B#32,
  0x4D43CFD0#32, 0xBF284CD3#32, 0xAC78BF27#32, 0x5E133C24#32, 0x105EC76F#32, 0xE235446C#32,
  0xF165B798#32, 0x030E349B#32, 0xD7C45070#32, 0x25AFD373#32, 0x36FF2087#32, 0xC494A384#32,
  0x9A879FA0#32, 0x68EC1CA3#32, 0x7BBCEF57#32, 0x89D76C54#32, 0x5D1D08BF#32, 0xAF768BBC#32,
  0xBC267848#32, 0x4E4DFB4B#32, 0x20BD8EDE#32, 0xD2D60DDD#32, 0xC186FE29#32, 0x33ED7D2A#32,
  0xE72719C1#32, 0x154C9AC2#32, 0x061C6936#32, 0xF477EA35#32, 0xAA64D611#32, 0x580F5512#32,
  0x4B5FA6E6#32, 0xB93425E5#32, 0x6DFE410E#32, 0x9F95C20D#32, 0x8CC531F9#32, 0x7EAEB2FA#32,
  0x30E349B1#32, 0xC288CAB2#32, 0xD1D83946#32, 0x23B3BA45#32, 0xF779DEAE#32, 0x05125DAD#32,
  0x1642AE59#32, 0xE4292D5A#32, 0xBA3A117E#32, 0x4851927D#32, 0x5B016189#32, 0xA96AE28A#32,
  0x7DA08661#32, 0x8FCB0562#32, 0x9C9BF696#32, 0x6EF07595#32, 0x417B1DBC#32, 0xB3109EBF#32,
  0xA0406D4B#32, 0x522BEE48#32, 0x86E18AA3#32, 0x748A09A0#32, 0x67DAFA54#32, 0x95B17957#32,
  0xCBA24573#32, 0x39C9C670#32, 0x2A993584#32, 0xD8F2B687#32, 0x0C38D26C#32, 0xFE53516F#32,
  0xED03A29B#32, 0x1F682198#32, 0x5125DAD3#32, 0xA34E59D0#32, 0xB01EAA24#32, 0x42752927#32,
  0x96BF4DCC#32, 0x64D4CECF#32, 0x77843D3B#32, 0x85EFBE38#32, 0xDBFC821C#32, 0x2997011F#32,
  0x3AC7F2EB#32, 0xC8AC71E8#32, 0x1C661503#32, 0xEE0D9600#32, 0xFD5D65F4#32, 0x0F36E6F7#32,
  0x61C69362#32, 0x93AD1061#32, 0x80FDE395#32, 0x72966096#32, 0xA65C047D#32, 0x5437877E#32,
  0x4767748A#32, 0xB50CF789#32, 0xEB1FCBAD#32, 0x197448AE#32, 0x0A24BB5A#32, 0xF84F3859#32,
  0x2C855CB2#32, 0xDEEEDFB1#32, 0xCDBE2C45#32, 0x3FD5AF46#32, 0x7198540D#32, 0x83F3D70E#32,
  0x90A324FA#32, 0x62C8A7F9#32, 0xB602C312#32, 0x44694011#32, 0x5739B3E5#32, 0xA55230E6#32,
  0xFB410CC2#32, 0x092A8FC1#32, 0x1A7A7C35#32, 0xE811FF36#32, 0x3CDB9BDD#32, 0xCEB018DE#32,
  0xDDE0EB2A#32, 0x2F8B6829#32, 0x82F63B78#32, 0x709DB87B#32, 0x63CD4B8F#32, 0x91A6C88C#32,
  0x456CAC67#32, 0xB7072F64#32, 0xA457DC90#32, 0x563C5F93#32, 0x082F63B7#32, 0xFA44E0B4#32,
  0xE9141340#32, 0x1B7F9043#32, 0xCFB5F4A8#32, 0x3DDE77AB#32, 0x2E8E845F#32, 0xDCE5075C#32,
  0x92A8FC17#32, 0x60C37F14#32, 0x73938CE0#32, 0x81F80FE3#32, 0x55326B08#32, 0xA759E80B#32,
  0xB4091BFF#32, 0x466298FC#32, 0x1871A4D8#32, 0xEA1A27DB#32, 0xF94AD42F#32, 0x0B21572C#32,
  0xDFEB33C7#32, 0x2D80B0C4#32, 0x3ED04330#32, 0xCCBBC033#32, 0xA24BB5A6#32, 0x502036A5#32,
  0x4370C551#32, 0xB11B4652#32, 0x65D122B9#32, 0x97BAA1BA#32, 0x84EA524E#32, 0x7681D14D#32,
  0x2892ED69#32, 0xDAF96E6A#32, 0xC9A99D9E#32, 0x3BC21E9D#32, 0xEF087A76#32, 0x1D63F975#32,
  0x0E330A81#32, 0xFC588982#32, 0xB21572C9#32, 0x407EF1CA#32, 0x532E023E#32, 0xA145813D#32,
  0x758FE5D6#32, 0x87E466D5#32, 0x94B49521#32, 0x66DF1622#32, 0x38CC2A06#32, 0xCAA7A905#32,
  0xD9F75AF1#32, 0x2B9CD9F2#32, 0xFF56BD19#32, 0x0D3D3E1A#32, 0x1E6DCDEE#32, 0xEC064EED#32,
  0xC38D26C4#32, 0x31E6A5C7#32, 0x22B65633#32, 0xD0DDD530#32, 0x0417B1DB#32, 0xF67C32D8#32,
  0xE52CC12C#32, 0x1747422F#32, 0x49547E0B#32, 0xBB3FFD08#32, 0xA86F0EFC#32, 0x5A048DFF#32,
  0x8ECEE914#32, 0x7CA56A17#32, 0x6FF599E3#32, 0x9D9E1AE0#32, 0xD3D3E1AB#32, 0x21B862A8#32,
  0x32E8915C#32, 0xC083125F#32, 0x144976B4#32, 0xE622F5B7#32, 0xF5720643#32, 0x07198540#32,
  0x590AB964#32, 0xAB613A67#32, 0xB831C993#32, 0x4A5A4A90#32, 0x9E902E7B#32, 0x6CFBAD78#32,
  0x7FAB5E8C#32, 0x8DC0DD8F#32, 0xE330A81A#32, 0x115B2B19#32, 0x020BD8ED#32, 0xF0605BEE#32,
  0x24AA3F05#32, 0xD6C1BC06#32, 0xC5914FF2#32, 0x37FACCF1#32, 0x69E9F0D5#32, 0x9B8273D6#32,
  0x88D28022#32, 0x7AB90321#32, 0xAE7367CA#32, 0x5C18E4C9#32, 0x4F48173D#32, 0xBD23943E#32,
  0xF36E6F75#32, 0x0105EC76#32, 0x12551F82#32, 0xE03E9C81#32, 0x34F4F86A#32, 0xC69F7B69#32,
  0xD5CF889D#32, 0x27A40B9E#32, 0x79B737BA#32, 0x8BDCB4B9#32, 0x988C474D#32, 0x6AE7C44E#32,
  0xBE2DA0A5#32, 0x4C4623A6#32, 0x5F16D052#32, 0xAD7D5351#32]

def sctpCrcTableil8O40 : List (BitVec 32) := [
  0x00000000#32, 0x13A29877#32, 0x274530EE#32, 0x34E7A899#32, 0x4E8A61DC#32, 0x5D28F9AB#32,
  0x69CF5132#32, 0x7A6DC945#32, 0x9D14C3B8#32, 0x8EB65BCF#32, 0xBA51F356#32, 0xA9F36B21#32,
  0xD39EA264#32, 0xC03C3A13#32, 0xF4DB928A#32, 0xE7790AFD#32, 0x3FC5F181#32, 0x2C6769F6#32,
  0x1880C16F#32, 0x0B225918#32, 0x714F905D#32, 0x62ED082A#32, 0x560AA0B3#32, 0x45A838C4#32,
  0xA2D13239#32, 0xB173AA4E#32, 0x859402D7#32, 0x96369AA0#32, 0xEC5B53E5#32, 0xFFF9CB92#32,
  0xCB1E630B#32, 0xD8BCFB7C#32, 0x7F8BE302#32, 0x6C297B75#32, 0x58CED3EC#32, 0x4B6C4B9B#32,
  0x310182DE#32, 0x22A31AA9#32, 0x1644B230#32, 0x05E62A47#32, 0xE29F20BA#32, 0xF13DB8CD#32,
  0xC5DA1054#32, 0xD6788823#32, 0xAC154166#32, 0xBFB7D911#32, 0x8B507188#32, 0x98F2E9FF#32,
  0x404E1283#32, 0x53EC8AF4#32, 0x670B226D#32, 0x74A9BA1A#32, 0x0EC4735F#32, 0x1D66EB28#32,
  0x298143B1#32, 0x3A23DBC6#32, 0xDD5AD13B#32, 0xCEF8494C#32, 0xFA1FE1D5#32, 0xE9BD79A2#32,
  0x93D0B0E7#32, 0x80722890#32, 0xB4958009#32, 0xA737187E#32, 0xFF17C604#32, 0xECB55E73#32,
  0xD852F6EA#32, 0xCBF06E9D#32, 0xB19DA7D8#32, 0xA23F3FAF#32, 0x96D89736#32, 0x857A0F41#32,
  0x620305BC#32, 0x71A19DCB#32, 0x45463552#32, 0x56E4AD25#32, 0x2C896460#32, 0x3F2BFC17#32,
  0x0BCC548E#32, 0x186ECCF9#32, 0xC0D23785#32, 0xD370AFF2#32, 0xE797076B#32, 0xF4359F1C#32,
  0x8E585659#32, 0x9DFACE2E#32, 0xA91D66B7#32, 0xBABFFEC0#32, 0x5DC6F43D#32, 0x4E646C4A#32,
  0x7A83C4D3#32, 0x69215CA4#32, 0x134C95E1#32, 0x00EE0D96#32, 0x3409A50F#32, 0x27AB3D78#32,
  0x809C2506#32, 0x933EBD71#32, 0xA7D915E8#32, 0xB47B8D9F#32, 0xCE1644DA#32, 0xDDB4DCAD#32,
  0xE9537434#32, 0xFAF1EC43#32, 0x1D88E6BE#32, 0x0E2A7EC9#32, 0x3ACDD650#32, 0x296F4E27#32,
  0x53028762#32, 0x40A01F15#32, 0x7447B78C#32, 0x67E52FFB#32, 0xBF59D487#32, 0xACFB4CF0#32,
  0x981CE469#32, 0x8BBE7C1E#32, 0xF1D3B55B#32, 0xE2712D2C#32, 0xD69685B5#32, 0xC5341DC2#32,
  0x224D173F#32, 0x31EF8F48#32, 0x050827D1#32, 0x16AABFA6#32, 0x6CC776E3#32, 0x7F65EE94#32,
  0x4B82460D#32, 0x5820DE7A#32, 0xFBC3FAF9#32, 0xE861628E#32, 0xDC86CA17#32, 0xCF245260#32,
  0xB5499B25#32, 0xA6EB0352#32, 0x920CABCB#32, 0x81AE33BC#32, 0x66D73941#32, 0x7575A136#32,
  0x419209AF#32, 0x523091D8#32, 0x285D589D#32, 0x3BFFC0EA#32, 0x0F186873#32, 0x1CBAF004#32,
  0xC4060B78#32, 0xD7A4930F#32, 0xE3433B96#32, 0xF0E1A3E1#32, 0x8A8C6AA4#32, 0x992EF2D3#32,
  0xADC95A4A#32, 0xBE6BC23D#32, 0x5912C8C0#32, 0x4AB050B7#32, 0x7E57F82E#32, 0x6DF56059#32,
  0x1798A91C#32, 0x043A316B#32, 0x30DD99F2#32, 0x237F0185#32, 0x844819FB#32, 0x97EA818C#32,
  0xA30D2915#32, 0xB0AFB162#32, 0xCAC27827#32, 0xD960E050#32, 0xED8748C9#32, 0xFE25D0BE#32,
  0x195CDA43#32, 0x0AFE4234#32, 0x3E19EAAD#32, 0x2DBB72DA#32, 0x57D6BB9F#32, 0x447423E8#32,
  0x70938B71#32, 0x63311306#32, 0xBB8DE87A#32, 0xA82F700D#32, 0x9CC8D894#32, 0x8F6A40E3#32,
  0xF50789A6#32, 0xE6A511D1#32, 0xD242B948#32, 0xC1E0213F#32, 0x26992BC2#32, 0x353BB3B5#32,
  0x01DC1B2C#32, 0x127E835B#32, 0x68134A1E#32, 0x7BB1D269#32, 0x4F567AF0#32, 0x5CF4E287#32,
  0x04D43CFD#32, 0x1776A48A#32, 0x23910C13#32, 0x30339464#32, 0x4A5E5D21#32, 0x59FCC556#32,
  0x6D1B6DCF#32, 0x7EB9F5B8#32, 0x99C0FF45#32, 0x8A626732#32, 0xBE85CFAB#32, 0xAD2757DC#32,
  0xD74A9E99#32, 0xC4E806EE#32, 0xF00FAE77#32, 0xE3AD3600#32, 0x3B11CD7C#32, 0x28B3550B#32,
  0x1C54FD92#32, 0x0FF665E5#32, 0x759BACA0#32, 0x663934D7#32, 0x52DE9C4E#32, 0x417C0439#32,
  0xA6050EC4#32, 0xB5A796B3#32, 0x81403E2A#32, 0x92E2A65D#32, 0xE88F6F18#32, 0xFB2DF76F#32,
  0xCFCA5FF6#32, 0xDC68C781#32, 0x7B5FDFFF#32, 0x68FD4788#32, 0x5C1AEF11#32, 0x4FB87766#32,
  0x35D5BE23#32, 0x26772654#32, 0x12908ECD#32, 0x013216BA#32, 0xE64B1C47#32, 0xF5E98430#32,
  0xC10E2CA9#32, 0xD2ACB4DE#32, 0xA8C17D9B#32, 0xBB63E5EC#32, 0x8F844D75#32, 0x9C26D502#32,
  0x449A2E7E#32, 0x5738B609#32, 0x63DF1E90#32, 0x707D86E7#32, 0x0A104FA2#32, 0x19B2D7D5#32,
  0x2D557F4C#32, 0x3EF7E73B#32, 0xD98EEDC6#32, 0xCA2C75B1#32, 0xFECBDD28#32, 0xED69455F#32,
  0x97048C1A#32, 0x84A6146D#32, 0xB041BCF4#32, 0xA3E32483#32]

def sctpCrcTableil8O48 : List (BitVec 32) := [
  0x00000000#32, 0xA541927E#32, 0x4F6F520D#32, 0xEA2EC073#32, 0x9EDEA41A#32, 0x3B9F3664#32,
  0xD1B1F617#32, 0x74F06469#32, 0x38513EC5#32, 0x9D10ACBB#32, 0x773E6CC8#32, 0xD27FFEB6#32,
  0xA68F9ADF#32, 0x03CE08A1#32, 0xE9E0C8D2#32, 0x4CA15AAC#32, 0x70A27D8A#32, 0xD5E3EFF4#32,
  0x3FCD2F87#32, 0x9A8CBDF9#32, 0xEE7CD990#32, 0x4B3D4BEE#32, 0xA1138B9D#32, 0x045219E3#32,
  0x48F3434F#32, 0xEDB2D131#32, 0x079C1142#32, 0xA2DD833C#32, 0xD62DE755#32, 0x736C752B#32,
  0x9942B558#32, 0x3C032726#32, 0xE144FB14#32, 0x4405696A#32, 0xAE2BA919#32, 0x0B6A3B67#32,
  0x7F9A5F0E#32, 0xDADBCD70#32, 0x30F50D03#32, 0x95B49F7D#32, 0xD915C5D1#32, 0x7C5457AF#32,
  0x967A97DC#32, 0x333B05A2#32, 0x47CB61CB#32, 0xE28AF3B5#32, 0x08A433C6#32, 0xADE5A1B8#32,
  0x91E6869E#32, 0x34A714E0#32, 0xDE89D493#32, 0x7BC846ED#32, 0x0F382284#32, 0xAA79B0FA#32,
  0x40577089#32, 0xE516E2F7#32, 0xA9B7B85B#32, 0x0CF62A25#32, 0xE6D8EA56#32, 0x43997828#32,
  0x37691C41#32, 0x92288E3F#32, 0x78064E4C#32, 0xDD47DC32#32, 0xC76580D9#32, 0x622412A7#32,
  0x880AD2D4#32, 0x2D4B40AA#32, 0x59BB24C3#32, 0xFCFAB6BD#32, 0x16D476CE#32, 0xB395E4B0#32,
  0xFF34BE1C#32, 0x5A752C62#32, 0xB05BEC11#32, 0x151A7E6F#32, 0x61EA1A06#32, 0xC4AB8878#32,
  0x2E85480B#32, 0x8BC4DA75#32, 0xB7C7FD53#32, 0x12866F2D#32, 0xF8A8AF5E#32, 0x5DE93D20#32,
  0x29195949#32, 0x8C58CB37#32, 0x66760B44#32, 0xC337993A#32, 0x8F96C396#32, 0x2AD751E8#32,
  0xC0F9919B#32, 0x65B803E5#32, 0x1148678C#32, 0xB409F5F2#32, 0x5E273581#32, 0xFB66A7FF#32,
  0x26217BCD#32, 0x8360E9B3#32, 0x694E29C0#32, 0xCC0FBBBE#32, 0xB8FFDFD7#32, 0x1DBE4DA9#32,
  0xF7908DDA#32, 0x52D11FA4#32, 0x1E704508#32, 0xBB31D776#32, 0x511F1705#32, 0xF45E857B#32,
  0x80AEE112#32, 0x25EF736C#32, 0xCFC1B31F#32, 0x6A802161#32, 0x56830647#32, 0xF3C29439#32,
  0x19EC544A#32, 0xBCADC634#32, 0xC85DA25D#32, 0x6D1C3023#32, 0x8732F050#32, 0x2273622E#32,
  0x6ED23882#32, 0xCB93AAFC#32, 0x21BD6A8F#32, 0x84FCF8F1#32, 0xF00C9C98#32, 0x554D0EE6#32,
  0xBF63CE95#32, 0x1A225CEB#32, 0x8B277743#32, 0x2E66E53D#32, 0xC448254E#32, 0x6109B730#32,
  0x15F9D359#32, 0xB0B84127#32, 0x5A968154#32, 0xFFD7132A#32, 0xB3764986#32, 0x1637DBF8#32,
  0xFC191B8B#32, 0x595889F5#32, 0x2DA8ED9C#32, 0x88E97FE2#32, 0x62C7BF91#32, 0xC7862DEF#32,
  0xFB850AC9#32, 0x5EC498B7#32, 0xB4EA58C4#32, 0x11ABCABA#32, 0x655BAED3#32, 0xC01A3CAD#32,
  0x2A34FCDE#32, 0x8F756EA0#32, 0xC3D4340C#32, 0x6695A672#32, 0x8CBB6601#32, 0x29FAF47F#32,
  0x5D0A9016#32, 0xF84B0268#32, 0x1265C21B#32, 0xB7245065#32, 0x6A638C57#32, 0xCF221E29#32,
  0x250CDE5A#32, 0x804D4C24#32, 0xF4BD284D#32, 0x51FCBA33#32, 0xBBD27A40#32, 0x1E93E83E#32,
  0x5232B292#32, 0xF77320EC#32, 0x1D5DE09F#32, 0xB81C72E1#32, 0xCCEC1688#32, 0x69AD84F6#32,
  0x83834485#32, 0x26C2D6FB#32, 0x1AC1F1DD#32, 0xBF8063A3#32, 0x55AEA3D0#32, 0xF0EF31AE#32,
  0x841F55C7#32, 0x215EC7B9#32, 0xCB7007CA#32, 0x6E3195B4#32, 0x2290CF18#32, 0x87D15D66#32,
  0x6DFF9D15#32, 0xC8BE0F6B#32, 0xBC4E6B02#32, 0x190FF97C#32, 0xF321390F#32, 0x5660AB71#32,
  0x4C42F79A#32, 0xE90365E4#32, 0x032DA597#32, 0xA66C37E9#32, 0xD29C5380#32, 0x77DDC1FE#32,
  0x9DF3018D#32, 0x38B293F3#32, 0x7413C95F#32, 0xD1525B21#32, 0x3B7C9B52#32, 0x9E3D092C#32,
  0xEACD6D45#32, 0x4F8CFF3B#32, 0xA5A23F48#32, 0x00E3AD36#32, 0x3CE08A10#32, 0x99A1186E#32,
  0x738FD81D#32, 0xD6CE4A63#32, 0xA23E2E0A#32, 0x077FBC74#32, 0xED517C07#32, 0x4810EE79#32,
  0x04B1B4D5#32, 0xA1F026AB#32, 0x4BDEE6D8#32, 0xEE9F74A6#32, 0x9A6F10CF#32, 0x3F2E82B1#32,
  0xD50042C2#32, 0x7041D0BC#32, 0xAD060C8E#32, 0x08479EF0#32, 0xE2695E83#32, 0x4728CCFD#32,
  0x33D8A894#32, 0x96993AEA#32, 0x7CB7FA99#32, 0xD9F668E7#32, 0x9557324B#32, 0x3016A035#32,
  0xDA386046#32, 0x7F79F238#32, 0x0B899651#32, 0xAEC8042F#32, 0x44E6C45C#32, 0xE1A75622#32,
  0xDDA47104#32, 0x78E5E37A#32, 0x92CB2309#32, 0x378AB177#32, 0x437AD51E#32, 0xE63B4760#32,
  0x0C158713#32, 0xA954156D#32, 0xE5F54FC1#32, 0x40B4DDBF#32, 0xAA9A1DCC#32, 0x0FDB8FB2#32,
  0x7B2BEBDB#32, 0xDE6A79A5#32, 0x3444B9D6#32, 0x91052BA8#32]

def sctpCrcTableil8O56 : List (BitVec 32) := [
  0x00000000#32, 0xDD45AAB8#32, 0xBF672381#32, 0x62228939#32, 0x7B2231F3#32, 0xA6679B4B#32,
  0xC4451272#32, 0x1900B8CA#32, 0xF64463E6#32, 0x2B01C95E#32, 0x49234067#32, 0x9466EADF#32,
  0x8D665215#32, 0x5023F8AD#32, 0x32017194#32, 0xEF44DB2C#32, 0xE964B13D#32, 0x34211B85#32,
  0x560392BC#32, 0x8B463804#32, 0x924680CE#32, 0x4F032A76#32, 0x2D21A34F#32, 0xF06409F7#32,
  0x1F20D2DB#32, 0xC2657863#32, 0xA047F15A#32, 0x7D025BE2#32, 0x6402E328#32, 0xB9474990#32,
  0xDB65C0A9#32, 0x06206A11#32, 0xD725148B#32, 0x0A60BE33#32, 0x6842370A#32, 0xB5079DB2#32,
  0xAC072578#32, 0x71428FC0#32, 0x136006F9#32, 0xCE25AC41#32, 0x2161776D#32, 0xFC24DDD5#32,
  0x9E0654EC#32, 0x4343FE54#32, 0x5A43469E#32, 0x8706EC26#32, 0xE524651F#32, 0x3861CFA7#32,
  0x3E41A5B6#32, 0xE3040F0E#32, 0x81268637#32, 0x5C632C8F#32, 0x45639445#32, 0x98263EFD#32,
  0xFA04B7C4#32, 0x27411D7C#32, 0xC805C650#32, 0x15406CE8#32, 0x7762E5D1#32, 0xAA274F69#32,
  0xB327F7A3#32, 0x6E625D1B#32, 0x0C40D422#32, 0xD1057E9A#32, 0xABA65FE7#32, 0x76E3F55F#32,
  0x14C17C66#32, 0xC984D6DE#32, 0xD0846E14#32, 0x0DC1C4AC#32, 0x6FE34D95#32, 0xB2A6E72D#32,
  0x5DE23C01#32, 0x80A796B9#32, 0xE2851F80#32, 0x3FC0B538#32, 0x26C00DF2#32, 0xFB85A74A#32,
  0x99A72E73#32, 0x44E284CB#32, 0x42C2EEDA#32, 0x9F874462#32, 0xFDA5CD5B#32, 0x20E067E3#32,
  0x39E0DF29#32, 0xE4A57591#32, 0x8687FCA8#32, 0x5BC25610#32, 0xB4868D3C#32, 0x69C32784#32,
  0x0BE1AEBD#32, 0xD6A40405#32, 0xCFA4BCCF#32, 0x12E11677#32, 0x70C39F4E#32, 0xAD8635F6#32,
  0x7C834B6C#32, 0xA1C6E1D4#32, 0xC3E468ED#32, 0x1EA1C255#32, 0x07A17A9F#32, 0xDAE4D027#32,
  0xB8C6591E#32, 0x6583F3A6#32, 0x8AC7288A#32, 0x57828232#32, 0x35A00B0B#32, 0xE8E5A1B3#32,
  0xF1E51979#32, 0x2CA0B3C1#32, 0x4E823AF8#32, 0x93C79040#32, 0x95E7FA51#32, 0x48A250E9#32,
  0x2A80D9D0#32, 0xF7C57368#32, 0xEEC5CBA2#32, 0x3380611A#32, 0x51A2E823#32, 0x8CE7429B#32,
  0x63A399B7#32, 0xBEE6330F#32, 0xDCC4BA36#32, 0x0181108E#32, 0x1881A844#32, 0xC5C402FC#32,
  0xA7E68BC5#32, 0x7AA3217D#32, 0x52A0C93F#32, 0x8FE56387#32, 0xEDC7EABE#32, 0x30824006#32,
  0x2982F8CC#32, 0xF4C75274#32, 0x96E5DB4D#32, 0x4BA071F5#32, 0xA4E4AAD9#32, 0x79A10061#32,
  0x1B838958#32, 0xC6C623E0#32, 0xDFC69B2A#32, 0x02833192#32, 0x60A1B8AB#32, 0xBDE41213#32,
  0xBBC47802#32, 0x6681D2BA#32, 0x04A35B83#32, 0xD9E6F13B#32, 0xC0E649F1#32, 0x1DA3E349#32,
  0x7F816A70#32, 0xA2C4C0C8#32, 0x4D801BE4#32, 0x90C5B15C#32, 0xF2E73865#32, 0x2FA292DD#32,
  0x36A22A17#32, 0xEBE780AF#32, 0x89C50996#32, 0x5480A32E#32, 0x8585DDB4#32, 0x58C0770C#32,
  0x3AE2FE35#32, 0xE7A7548D#32, 0xFEA7EC47#32, 0x23E246FF#32, 0x41C0CFC6#32, 0x9C85657E#32,
  0x73C1BE52#32, 0xAE8414EA#32, 0xCCA69DD3#32, 0x11E3376B#32, 0x08E38FA1#32, 0xD5A62519#32,
  0xB784AC20#32, 0x6AC10698#32, 0x6CE16C89#32, 0xB1A4C631#32, 0xD3864F08#32, 0x0EC3E5B0#32,
  0x17C35D7A#32, 0xCA86F7C2#32, 0xA8A47EFB#32, 0x75E1D443#32, 0x9AA50F6F#32, 0x47E0A5D7#32,
  0x25C22CEE#32, 0xF8878656#32, 0xE1873E9C#32, 0x3CC29424#32, 0x5EE01D1D#32, 0x83A5B7A5#32,
  0xF90696D8#32, 0x24433C60#32, 0x4661B559#32, 0x9B241FE1#32, 0x8224A72B#32, 0x5F610D93#32,
  0x3D4384AA#32, 0xE0062E12#32, 0x0F42F53E#32, 0xD2075F86#32, 0xB025D6BF#32, 0x6D607C07#32,
  0x7460C4CD#32, 0xA9256E75#32, 0xCB07E74C#32, 0x16424DF4#32, 0x106227E5#32, 0xCD278D5D#32,
  0xAF050464#32, 0x7240AEDC#32, 0x6B401616#32, 0xB605BCAE#32, 0xD4273597#32, 0x09629F2F#32,
  0xE6264403#32, 0x3B63EEBB#32, 0x59416782#32, 0x8404CD3A#32, 0x9D0475F0#32, 0x4041DF48#32,
  0x22635671#32, 0xFF26FCC9#32, 0x2E238253#32, 0xF36628EB#32, 0x9144A1D2#32, 0x4C010B6A#32,
  0x5501B3A0#32, 0x88441918#32, 0xEA669021#32, 0x37233A99#32, 0xD867E1B5#32, 0x05224B0D#32,
  0x6700C234#32, 0xBA45688C#32, 0xA345D046#32, 0x7E007AFE#32, 0x1C22F3C7#32, 0xC167597F#32,
  0xC747336E#32, 0x1A0299D6#32, 0x782010EF#32, 0xA565BA57#32, 0xBC65029D#32, 0x6120A825#32,
  0x0302211C#32, 0xDE478BA4#32, 0x31035088#32, 0xEC46FA30#32, 0x8E647309#32, 0x5321D9B1#32,
  0x4A21617B#32, 0x9764CBC3#32, 0xF54642FA#32, 0x2803E842#32]

def sctpCrcTableil8O64 : List (BitVec 32) := [
  0x00000000#32, 0x38116FAC#32, 0x7022DF58#32, 0x4833B0F4#32, 0xE045BEB0#32, 0xD854D11C#32,
  0x906761E8#32, 0xA8760E44#32, 0xC5670B91#32, 0xFD76643D#32, 0xB545D4C9#32, 0x8D54BB65#32,
  0x2522B521#32, 0x1D33DA8D#32, 0x55006A79#32, 0x6D1105D5#32, 0x8F2261D3#32, 0xB7330E7F#32,
  0xFF00BE8B#32, 0xC711D127#32, 0x6F67DF63#32, 0x5776B0CF#32, 0x1F45003B#32, 0x27546F97#32,
  0x4A456A42#32, 0x725405EE#32, 0x3A67B51A#32, 0x0276DAB6#32, 0xAA00D4F2#32, 0x9211BB5E#32,
  0xDA220BAA#32, 0xE2336406#32, 0x1BA8B557#32, 0x23B9DAFB#32, 0x6B8A6A0F#32, 0x539B05A3#32,
  0xFBED0BE7#32, 0xC3FC644B#32, 0x8BCFD4BF#32, 0xB3DEBB13#32, 0xDECFBEC6#32, 0xE6DED16A#32,
  0xAEED619E#32, 0x96FC0E32#32, 0x3E8A0076#32, 0x069B6FDA#32, 0x4EA8DF2E#32, 0x76B9B082#32,
  0x948AD484#32, 0xAC9BBB28#32, 0xE4A80BDC#32, 0xDCB96470#32, 0x74CF6A34#32, 0x4CDE0598#32,
  0x04EDB56C#32, 0x3CFCDAC0#32, 0x51EDDF15#32, 0x69FCB0B9#32, 0x21CF004D#32, 0x19DE6FE1#32,
  0xB1A861A5#32, 0x89B90E09#32, 0xC18ABEFD#32, 0xF99BD151#32, 0x37516AAE#32, 0x0F400502#32,
  0x4773B5F6#32, 0x7F62DA5A#32, 0xD714D41E#32, 0xEF05BBB2#32, 0xA7360B46#32, 0x9F2764EA#32,
  0xF236613F#32, 0xCA270E93#32, 0x8214BE67#32, 0xBA05D1CB#32, 0x1273DF8F#32, 0x2A62B023#32,
  0x625100D7#32, 0x5A406F7B#32, 0xB8730B7D#32, 0x806264D1#32, 0xC851D425#32, 0xF040BB89#32,
  0x5836B5CD#32, 0x6027DA61#32, 0x28146A95#32, 0x10050539#32, 0x7D1400EC#32, 0x45056F40#32,
  0x0D36DFB4#32, 0x3527B018#32, 0x9D51BE5C#32, 0xA540D1F0#32, 0xED736104#32, 0xD5620EA8#32,
  0x2CF9DFF9#32, 0x14E8B055#32, 0x5CDB00A1#32, 0x64CA6F0D#32, 0xCCBC6149#32, 0xF4AD0EE5#32,
  0xBC9EBE11#32, 0x848FD1BD#32, 0xE99ED468#32, 0xD18FBBC4#32, 0x99BC0B30#32, 0xA1AD649C#32,
  0x09DB6AD8#32, 0x31CA0574#32, 0x79F9B580#32, 0x41E8DA2C#32, 0xA3DBBE2A#32, 0x9BCAD186#32,
  0xD3F96172#32, 0xEBE80EDE#32, 0x439E009A#32, 0x7B8F6F36#32, 0x33BCDFC2#32, 0x0BADB06E#32,
  0x66BCB5BB#32, 0x5EADDA17#32, 0x169E6AE3#32, 0x2E8F054F#32, 0x86F90B0B#32, 0xBEE864A7#32,
  0xF6DBD453#32, 0xCECABBFF#32, 0x6EA2D55C#32, 0x56B3BAF0#32, 0x1E800A04#32, 0x269165A8#32,
  0x8EE76BEC#32, 0xB6F60440#32, 0xFEC5B4B4#32, 0xC6D4DB18#32, 0xABC5DECD#32, 0x93D4B161#32,
  0xDBE70195#32, 0xE3F66E39#32, 0x4B80607D#32, 0x73910FD1#32, 0x3BA2BF25#32, 0x03B3D089#32,
  0xE180B48F#32, 0xD991DB23#32, 0x91A26BD7#32, 0xA9B3047B#32, 0x01C50A3F#32, 0x39D46593#32,
  0x71E7D567#32, 0x49F6BACB#32, 0x24E7BF1E#32, 0x1CF6D0B2#32, 0x54C56046#32, 0x6CD40FEA#32,
  0xC4A201AE#32, 0xFCB36E02#32, 0xB480DEF6#32, 0x8C91B15A#32, 0x750A600B#32, 0x4D1B0FA7#32,
  0x0528BF53#32, 0x3D39D0FF#32, 0x954FDEBB#32, 0xAD5EB117#32, 0xE56D01E3#32, 0xDD7C6E4F#32,
  0xB06D6B9A#32, 0x887C0436#32, 0xC04FB4C2#32, 0xF85EDB6E#32, 0x5028D52A#32, 0x6839BA86#32,
  0x200A0A72#32, 0x181B65DE#32, 0xFA2801D8#32, 0xC2396E74#32, 0x8A0ADE80#32, 0xB21BB12C#32,
  0x1A6DBF68#32, 0x227CD0C4#32, 0x6A4F6030#32, 0x525E0F9C#32, 0x3F4F0A49#32, 0x075E65E5#32,
  0x4F6DD511#32, 0x777CBABD#32, 0xDF0AB4F9#32, 0xE71BDB55#32, 0xAF286BA1#32, 0x9739040D#32,
  0x59F3BFF2#32, 0x61E2D05E#32, 0x29D160AA#32, 0x11C00F06#32, 0xB9B60142#32, 0x81A76EEE#32,
  0xC994DE1A#32, 0xF185B1B6#32, 0x9C94B463#32, 0xA485DBCF#32, 0xECB66B3B#32, 0xD4A70497#32,
  0x7CD10AD3#32, 0x44C0657F#32, 0x0CF3D58B#32, 0x34E2BA27#32, 0xD6D1DE21#32, 0xEEC0B18D#32,
  0xA6F30179#32, 0x9EE26ED5#32, 0x36946091#32, 0x0E850F3D#32, 0x46B6BFC9#32, 0x7EA7D065#32,
  0x13B6D5B0#32, 0x2BA7BA1C#32, 0x63940AE8#32, 0x5B856544#32, 0xF3F36B00#32, 0xCBE204AC#32,
  0x83D1B458#32, 0xBBC0DBF4#32, 0x425B0AA5#32, 0x7A4A6509#32, 0x3279D5FD#32, 0x0A68BA51#32,
  0xA21EB415#32, 0x9A0FDBB9#32, 0xD23C6B4D#32, 0xEA2D04E1#32, 0x873C0134#32, 0xBF2D6E98#32,
  0xF71EDE6C#32, 0xCF0FB1C0#32, 0x6779BF84#32, 0x5F68D028#32, 0x175B60DC#32, 0x2F4A0F70#32,
  0xCD796B76#32, 0xF56804DA#32, 0xBD5BB42E#32, 0x854ADB82#32, 0x2D3CD5C6#32, 0x152DBA6A#32,
  0x5D1E0A9E#32, 0x650F6532#32, 0x081E60E7#32, 0x300F0F4B#32, 0x783CBFBF#32, 0x402DD013#32,
  0xE85BDE57#32, 0xD04AB1FB#32, 0x9879010F#32, 0xA0686EA3#32]

def sctpCrcTableil8O72 : List (BitVec 32) := [
  0x00000000#32, 0xEF306B19#32, 0xDB8CA0C3#32, 0x34BCCBDA#32, 0xB2F53777#32, 0x5DC55C6E#32,
  0x697997B4#32, 0x8649FCAD#32, 0x6006181F#32, 0x8F367306#32, 0xBB8AB8DC#32, 0x54BAD3C5#32,
  0xD2F32F68#32, 0x3DC34471#32, 0x097F8FAB#32, 0xE64FE4B2#32, 0xC00C303E#32, 0x2F3C5B27#32,
  0x1B8090FD#32, 0xF4B0FBE4#32, 0x72F90749#32, 0x9DC96C50#32, 0xA975A78A#32, 0x4645CC93#32,
  0xA00A2821#32, 0x4F3A4338#32, 0x7B8688E2#32, 0x94B6E3FB#32, 0x12FF1F56#32, 0xFDCF744F#32,
  0xC973BF95#32, 0x2643D48C#32, 0x85F4168D#32, 0x6AC47D94#32, 0x5E78B64E#32, 0xB148DD57#32,
  0x370121FA#32, 0xD8314AE3#32, 0xEC8D8139#32, 0x03BDEA20#32, 0xE5F20E92#32, 0x0AC2658B#32,
  0x3E7EAE51#32, 0xD14EC548#32, 0x570739E5#32, 0xB83752FC#32, 0x8C8B9926#32, 0x63BBF23F#32,
  0x45F826B3#32, 0xAAC84DAA#32, 0x9E748670#32, 0x7144ED69#32, 0xF70D11C4#32, 0x183D7ADD#32,
  0x2C81B107#32, 0xC3B1DA1E#32, 0x25FE3EAC#32, 0xCACE55B5#32, 0xFE729E6F#32, 0x1142F576#32,
  0x970B09DB#32, 0x783B62C2#32, 0x4C87A918#32, 0xA3B7C201#32, 0x0E045BEB#32, 0xE13430F2#32,
  0xD588FB28#32, 0x3AB89031#32, 0xBCF16C9C#32, 0x53C10785#32, 0x677DCC5F#32, 0x884DA746#32,
  0x6E0243F4#32, 0x813228ED#32, 0xB58EE337#32, 0x5ABE882E#32, 0xDCF77483#32, 0x33C71F9A#32,
  0x077BD440#32, 0xE84BBF59#32, 0xCE086BD5#32, 0x213800CC#32, 0x1584CB16#32, 0xFAB4A00F#32,
  0x7CFD5CA2#32, 0x93CD37BB#32, 0xA771FC61#32, 0x48419778#32, 0xAE0E73CA#32, 0x413E18D3#32,
  0x7582D309#32, 0x9AB2B810#32, 0x1CFB44BD#32, 0xF3CB2FA4#32, 0xC777E47E#32, 0x28478F67#32,
  0x8BF04D66#32, 0x64C0267F#32, 0x507CEDA5#32, 0xBF4C86BC#32, 0x39057A11#32, 0xD6351108#32,
  0xE289DAD2#32, 0x0DB9B1CB#32, 0xEBF65579#32, 0x04C63E60#32, 0x307AF5BA#32, 0xDF4A9EA3#32,
  0x5903620E#32, 0xB6330917#32, 0x828FC2CD#32, 0x6DBFA9D4#32, 0x4BFC7D58#32, 0xA4CC1641#32,
  0x9070DD9B#32, 0x7F40B682#32, 0xF9094A2F#32, 0x16392136#32, 0x2285EAEC#32, 0xCDB581F5#32,
  0x2BFA6547#32, 0xC4CA0E5E#32, 0xF076C584#32, 0x1F46AE9D#32, 0x990F5230#32, 0x763F3929#32,
  0x4283F2F3#32, 0xADB399EA#32, 0x1C08B7D6#32, 0xF338DCCF#32, 0xC7841715#32, 0x28B47C0C#32,
  0xAEFD80A1#32, 0x41CDEBB8#32, 0x75712062#32, 0x9A414B7B#32, 0x7C0EAFC9#32, 0x933EC4D0#32,
  0xA7820F0A#32, 0x48B26413#32, 0xCEFB98BE#32, 0x21CBF3A7#32, 0x1577387D#32, 0xFA475364#32,
  0xDC0487E8#32, 0x3334ECF1#32, 0x0788272B#32, 0xE8B84C32#32, 0x6EF1B09F#32, 0x81C1DB86#32,
  0xB57D105C#32, 0x5A4D7B45#32, 0xBC029FF7#32, 0x5332F4EE#32, 0x678E3F34#32, 0x88BE542D#32,
  0x0EF7A880#32, 0xE1C7C399#32, 0xD57B0843#32, 0x3A4B635A#32, 0x99FCA15B#32, 0x76CCCA42#32,
  0x42700198#32, 0xAD406A81#32, 0x2B09962C#32, 0xC439FD35#32, 0xF08536EF#32, 0x1FB55DF6#32,
  0xF9FAB944#32, 0x16CAD25D#32, 0x22761987#32, 0xCD46729E#32, 0x4B0F8E33#32, 0xA43FE52A#32,
  0x90832EF0#32, 0x7FB345E9#32, 0x59F09165#32, 0xB6C0FA7C#32, 0x827C31A6#32, 0x6D4C5ABF#32,
  0xEB05A612#32, 0x0435CD0B#32, 0x308906D1#32, 0xDFB96DC8#32, 0x39F6897A#32, 0xD6C6E263#32,
  0xE27A29B9#32, 0x0D4A42A0#32, 0x8B03BE0D#32, 0x6433D514#32, 0x508F1ECE#32, 0xBFBF75D7#32,
  0x120CEC3D#32, 0xFD3C8724#32, 0xC9804CFE#32, 0x26B027E7#32, 0xA0F9DB4A#32, 0x4FC9B053#32,
  0x7B757B89#32, 0x94451090#32, 0x720AF422#32, 0x9D3A9F3B#32, 0xA98654E1#32, 0x46B63FF8#32,
  0xC0FFC355#32, 0x2FCFA84C#32, 0x1B736396#32, 0xF443088F#32, 0xD200DC03#32, 0x3D30B71A#32,
  0x098C7CC0#32, 0xE6BC17D9#32, 0x60F5EB74#32, 0x8FC5806D#32, 0xBB794BB7#32, 0x544920AE#32,
  0xB206C41C#32, 0x5D36AF05#32, 0x698A64DF#32, 0x86BA0FC6#32, 0x00F3F36B#32, 0xEFC39872#32,
  0xDB7F53A8#32, 0x344F38B1#32, 0x97F8FAB0#32, 0x78C891A9#32, 0x4C745A73#32, 0xA344316A#32,
  0x250DCDC7#32, 0xCA3DA6DE#32, 0xFE816D04#32, 0x11B1061D#32, 0xF7FEE2AF#32, 0x18CE89B6#32,
  0x2C72426C#32, 0xC3422975#32, 0x450BD5D8#32, 0xAA3BBEC1#32, 0x9E87751B#32, 0x71B71E02#32,
  0x57F4CA8E#32, 0xB8C4A197#32, 0x8C786A4D#32, 0x63480154#32, 0xE501FDF9#32, 0x0A3196E0#32,
  0x3E8D5D3A#32, 0xD1BD3623#32, 0x37F2D291#32, 0xD8C2B988#32, 0xEC7E7252#32, 0x034E194B#32,
  0x8507E5E6#32, 0x6A378EFF#32, 0x5E8B4525#32, 0xB1BB2E3C#32]

def sctpCrcTableil8O80 : List (BitVec 32) := [
  0x00000000#32, 0x68032CC8#32, 0xD0065990#32, 0xB8057558#32, 0xA5E0C5D1#32, 0xCDE3E919#32,
  0x75E69C41#32, 0x1DE5B089#32, 0x4E2DFD53#32, 0x262ED19B#32, 0x9E2BA4C3#32, 0xF628880B#32,
  0xEBCD3882#32, 0x83CE144A#32, 0x3BCB6112#32, 0x53C84DDA#32, 0x9C5BFAA6#32, 0xF458D66E#32,
  0x4C5DA336#32, 0x245E8FFE#32, 0x39BB3F77#32, 0x51B813BF#32, 0xE9BD66E7#32, 0x81BE4A2F#32,
  0xD27607F5#32, 0xBA752B3D#32, 0x02705E65#32, 0x6A7372AD#32, 0x7796C224#32, 0x1F95EEEC#32,
  0xA7909BB4#32, 0xCF93B77C#32, 0x3D5B83BD#32, 0x5558AF75#32, 0xED5DDA2D#32, 0x855EF6E5#32,
  0x98BB466C#32, 0xF0B86AA4#32, 0x48BD1FFC#32, 0x20BE3334#32, 0x73767EEE#32, 0x1B755226#32,
  0xA370277E#32, 0xCB730BB6#32, 0xD696BB3F#32, 0xBE9597F7#32, 0x0690E2AF#32, 0x6E93CE67#32,
  0xA100791B#32, 0xC90355D3#32, 0x7106208B#32, 0x19050C43#32, 0x04E0BCCA#32, 0x6CE39002#32,
  0xD4E6E55A#32, 0xBCE5C992#32, 0xEF2D8448#32, 0x872EA880#32, 0x3F2BDDD8#32, 0x5728F110#32,
  0x4ACD4199#32, 0x22CE6D51#32, 0x9ACB1809#32, 0xF2C834C1#32, 0x7AB7077A#32, 0x12B42BB2#32,
  0xAAB15EEA#32, 0xC2B27222#32, 0xDF57C2AB#32, 0xB754EE63#32, 0x0F519B3B#32, 0x6752B7F3#32,
  0x349AFA29#32, 0x5C99D6E1#32, 0xE49CA3B9#32, 0x8C9F8F71#32, 0x917A3FF8#32, 0xF9791330#32,
  0x417C6668#32, 0x297F4AA0#32, 0xE6ECFDDC#32, 0x8EEFD114#32, 0x36EAA44C#32, 0x5EE98884#32,
  0x430C380D#32, 0x2B0F14C5#32, 0x930A619D#32, 0xFB094D55#32, 0xA8C1008F#32, 0xC0C22C47#32,
  0x78C7591F#32, 0x10C475D7#32, 0x0D21C55E#32, 0x6522E996#32, 0xDD279CCE#32, 0xB524B006#32,
  0x47EC84C7#32, 0x2FEFA80F#32, 0x97EADD57#32, 0xFFE9F19F#32, 0xE20C4116#32, 0x8A0F6DDE#32,
  0x320A1886#32, 0x5A09344E#32, 0x09C17994#32, 0x61C2555C#32, 0xD9C72004#32, 0xB1C40CCC#32,
  0xAC21BC45#32, 0xC422908D#32, 0x7C27E5D5#32, 0x1424C91D#32, 0xDBB77E61#32, 0xB3B452A9#32,
  0x0BB127F1#32, 0x63B20B39#32, 0x7E57BBB0#32, 0x16549778#32, 0xAE51E220#32, 0xC652CEE8#32,
  0x959A8332#32, 0xFD99AFFA#32, 0x459CDAA2#32, 0x2D9FF66A#32, 0x307A46E3#32, 0x58796A2B#32,
  0xE07C1F73#32, 0x887F33BB#32, 0xF56E0EF4#32, 0x9D6D223C#32, 0x25685764#32, 0x4D6B7BAC#32,
  0x508ECB25#32, 0x388DE7ED#32, 0x808892B5#32, 0xE88BBE7D#32, 0xBB43F3A7#32, 0xD340DF6F#32,
  0x6B45AA37#32, 0x034686FF#32, 0x1EA33676#32, 0x76A01ABE#32, 0xCEA56FE6#32, 0xA6A6432E#32,
  0x6935F452#32, 0x0136D89A#32, 0xB933ADC2#32, 0xD130810A#32, 0xCCD53183#32, 0xA4D61D4B#32,
  0x1CD36813#32, 0x74D044DB#32, 0x27180901#32, 0x4F1B25C9#32, 0xF71E5091#32, 0x9F1D7C59#32,
  0x82F8CCD0#32, 0xEAFBE018#32, 0x52FE9540#32, 0x3AFDB988#32, 0xC8358D49#32, 0xA036A181#32,
  0x1833D4D9#32, 0x7030F811#32, 0x6DD54898#32, 0x05D66450#32, 0xBDD31108#32, 0xD5D03DC0#32,
  0x8618701A#32, 0xEE1B5CD2#32, 0x561E298A#32, 0x3E1D0542#32, 0x23F8B5CB#32, 0x4BFB9903#32,
  0xF3FEEC5B#32, 0x9BFDC093#32, 0x546E77EF#32, 0x3C6D5B27#32, 0x84682E7F#32, 0xEC6B02B7#32,
  0xF18EB23E#32, 0x998D9EF6#32, 0x2188EBAE#32, 0x498BC766#32, 0x1A438ABC#32, 0x7240A674#32,
  0xCA45D32C#32, 0xA246FFE4#32, 0xBFA34F6D#32, 0xD7A063A5#32, 0x6FA516FD#32, 0x07A63A35#32,
  0x8FD9098E#32, 0xE7DA2546#32, 0x5FDF501E#32, 0x37DC7CD6#32, 0x2A39CC5F#32, 0x423AE097#32,
  0xFA3F95CF#32, 0x923CB907#32, 0xC1F4F4DD#32, 0xA9F7D815#32, 0x11F2AD4D#32, 0x79F18185#32,
  0x6414310C#32, 0x0C171DC4#32, 0xB412689C#32, 0xDC114454#32, 0x1382F328#32, 0x7B81DFE0#32,
  0xC384AAB8#32, 0xAB878670#32, 0xB66236F9#32, 0xDE611A31#32, 0x66646F69#32, 0x0E6743A1#32,
  0x5DAF0E7B#32, 0x35AC22B3#32, 0x8DA957EB#32, 0xE5AA7B23#32, 0xF84FCBAA#32, 0x904CE762#32,
  0x2849923A#32, 0x404ABEF2#32, 0xB2828A33#32, 0xDA81A6FB#32, 0x6284D3A3#32, 0x0A87FF6B#32,
  0x17624FE2#32, 0x7F61632A#32, 0xC7641672#32, 0xAF673ABA#32, 0xFCAF7760#32, 0x94AC5BA8#32,
  0x2CA92EF0#32, 0x44AA0238#32, 0x594FB2B1#32, 0x314C9E79#32, 0x8949EB21#32, 0xE14AC7E9#32,
  0x2ED97095#32, 0x46DA5C5D#32, 0xFEDF2905#32, 0x96DC05CD#32, 0x8B39B544#32, 0xE33A998C#32,
  0x5B3FECD4#32, 0x333CC01C#32, 0x60F48DC6#32, 0x08F7A10E#32, 0xB0F2D456#32, 0xD8F1F89E#32,
  0xC5144817#32, 0xAD1764DF#32, 0x15121187#32, 0x7D113D4F#32]

def sctpCrcTableil8O88 : List (BitVec 32) := [
  0x00000000#32, 0x493C7D27#32, 0x9278FA4E#32, 0xDB448769#32, 0x211D826D#32, 0x6821FF4A#32,
  0xB3657823#32, 0xFA590504#32, 0x423B04DA#32, 0x0B0779FD#32, 0xD043FE94#32, 0x997F83B3#32,
  0x632686B7#32, 0x2A1AFB90#32, 0xF15E7CF9#32, 0xB86201DE#32, 0x847609B4#32, 0xCD4A7493#32,
  0x160EF3FA#32, 0x5F328EDD#32, 0xA56B8BD9#32, 0xEC57F6FE#32, 0x37137197#32, 0x7E2F0CB0#32,
  0xC64D0D6E#32, 0x8F717049#32, 0x5435F720#32, 0x1D098A07#32, 0xE7508F03#32, 0xAE6CF224#32,
  0x7528754D#32, 0x3C14086A#32, 0x0D006599#32, 0x443C18BE#32, 0x9F789FD7#32, 0xD644E2F0#32,
  0x2C1DE7F4#32, 0x65219AD3#32, 0xBE651DBA#32, 0xF759609D#32, 0x4F3B6143#32, 0x06071C64#32,
  0xDD439B0D#32, 0x947FE62A#32, 0x6E26E32E#32, 0x271A9E09#32, 0xFC5E1960#32, 0xB5626447#32,
  0x89766C2D#32, 0xC04A110A#32, 0x1B0E9663#32, 0x5232EB44#32, 0xA86BEE40#32, 0xE1579367#32,
  0x3A13140E#32, 0x732F6929#32, 0xCB4D68F7#32, 0x827115D0#32, 0x593592B9#32, 0x1009EF9E#32,
  0xEA50EA9A#32, 0xA36C97BD#32, 0x782810D4#32, 0x31146DF3#32, 0x1A00CB32#32, 0x533CB615#32,
  0x8878317C#32, 0xC1444C5B#32, 0x3B1D495F#32, 0x72213478#32, 0xA965B311#32, 0xE059CE36#32,
  0x583BCFE8#32, 0x1107B2CF#32, 0xCA4335A6#32, 0x837F4881#32, 0x79264D85#32, 0x301A30A2#32,
  0xEB5EB7CB#32, 0xA262CAEC#32, 0x9E76C286#32, 0xD74ABFA1#32, 0x0C0E38C8#32, 0x453245EF#32,
  0xBF6B40EB#32, 0xF6573DCC#32, 0x2D13BAA5#32, 0x642FC782#32, 0xDC4DC65C#32, 0x9571BB7B#32,
  0x4E353C12#32, 0x07094135#32, 0xFD504431#32, 0xB46C3916#32, 0x6F28BE7F#32, 0x2614C358#32,
  0x1700AEAB#32, 0x5E3CD38C#32, 0x857854E5#32, 0xCC4429C2#32, 0x361D2CC6#32, 0x7F2151E1#32,
  0xA465D688#32, 0xED59ABAF#32, 0x553BAA71#32, 0x1C07D756#32, 0xC743503F#32, 0x8E7F2D18#32,
  0x7426281C#32, 0x3D1A553B#32, 0xE65ED252#32, 0xAF62AF75#32, 0x9376A71F#32, 0xDA4ADA38#32,
  0x010E5D51#32, 0x48322076#32, 0xB26B2572#32, 0xFB575855#32, 0x2013DF3C#32, 0x692FA21B#32,
  0xD14DA3C5#32, 0x9871DEE2#32, 0x4335598B#32, 0x0A0924AC#32, 0xF05021A8#32, 0xB96C5C8F#32,
  0x6228DBE6#32, 0x2B14A6C1#32, 0x34019664#32, 0x7D3DEB43#32, 0xA6796C2A#32, 0xEF45110D#32,
  0x151C1409#32, 0x5C20692E#32, 0x8764EE47#32, 0xCE589360#32, 0x763A92BE#32, 0x3F06EF99#32,
  0xE44268F0#32, 0xAD7E15D7#32, 0x572710D3#32, 0x1E1B6DF4#32, 0xC55FEA9D#32, 0x8C6397BA#32,
  0xB0779FD0#32, 0xF94BE2F7#32, 0x220F659E#32, 0x6B3318B9#32, 0x916A1DBD#32, 0xD856609A#32,
  0x0312E7F3#32, 0x4A2E9AD4#32, 0xF24C9B0A#32, 0xBB70E62D#32, 0x60346144#32, 0x29081C63#32,
  0xD3511967#32, 0x9A6D6440#32, 0x4129E329#32, 0x08159E0E#32, 0x3901F3FD#32, 0x703D8EDA#32,
  0xAB7909B3#32, 0xE2457494#32, 0x181C7190#32, 0x51200CB7#32, 0x8A648BDE#32, 0xC358F6F9#32,
  0x7B3AF727#32, 0x32068A00#32, 0xE9420D69#32, 0xA07E704E#32, 0x5A27754A#32, 0x131B086D#32,
  0xC85F8F04#32, 0x8163F223#32, 0xBD77FA49#32, 0xF44B876E#32, 0x2F0F0007#32, 0x66337D20#32,
  0x9C6A7824#32, 0xD5560503#32, 0x0E12826A#32, 0x472EFF4D#32, 0xFF4CFE93#32, 0xB67083B4#32,
  0x6D3404DD#32, 0x240879FA#32, 0xDE517CFE#32, 0x976D01D9#32, 0x4C2986B0#32, 0x0515FB97#32,
  0x2E015D56#32, 0x673D2071#32, 0xBC79A718#32, 0xF545DA3F#32, 0x0F1CDF3B#32, 0x4620A21C#32,
  0x9D642575#32, 0xD4585852#32, 0x6C3A598C#32, 0x250624AB#32, 0xFE42A3C2#32, 0xB77EDEE5#32,
  0x4D27DBE1#32, 0x041BA6C6#32, 0xDF5F21AF#32, 0x96635C88#32, 0xAA7754E2#32, 0xE34B29C5#32,
  0x380FAEAC#32, 0x7133D38B#32, 0x8B6AD68F#32, 0xC256ABA8#32, 0x19122CC1#32, 0x502E51E6#32,
  0xE84C5038#32, 0xA1702D1F#32, 0x7A34AA76#32, 0x3308D751#32, 0xC951D255#32, 0x806DAF72#32,
  0x5B29281B#32, 0x1215553C#32, 0x230138CF#32, 0x6A3D45E8#32, 0xB179C281#32, 0xF845BFA6#32,
  0x021CBAA2#32, 0x4B20C785#32, 0x906440EC#32, 0xD9583DCB#32, 0x613A3C15#32, 0x28064132#32,
  0xF342C65B#32, 0xBA7EBB7C#32, 0x4027BE78#32, 0x091BC35F#32, 0xD25F4436#32, 0x9B633911#32,
  0xA777317B#32, 0xEE4B4C5C#32, 0x350FCB35#32, 0x7C33B612#32, 0x866AB316#32, 0xCF56CE31#32,
  0x14124958#32, 0x5D2E347F#32, 0xE54C35A1#32, 0xAC704886#32, 0x7734CFEF#32, 0x3E08B2C8#32,
  0xC451B7CC#32, 0x8D6DCAEB#32, 0x56294D82#32, 0x1F1530A5#32]

/-! ## What the tables hold -/

/-- The table's words are the octets after `k` zero octets. -/
def Slice (k : Nat) (table : List (BitVec 32)) : Prop :=
  ∀ i < 256, table[i]? = some (Crc.zeros crc32cPoly k (BitVec.ofNat 32 i))

theorem Slice.next {k : Nat} {table : List (BitVec 32)} (h : Slice k table) :
    Slice (1 + k) (table.map (Crc.zeros crc32cPoly 1)) := by
  intro i hi
  rw [List.getElem?_map, h i hi, Option.map_some, ← Crc.zeros_add]

theorem crc32cTable_eq : crc32cTable = sctpCrcTableil8O32 := rfl

theorem sctpCrcTableil8O32_eq : sctpCrcTableil8O32 =
    (List.range 256).map fun i => Crc.zeros crc32cPoly 1 (BitVec.ofNat 32 i) := by
  decide +kernel

/-- Each table is the one before it, one zero octet on. -/
theorem sctpCrcTableil8_chain :
    [sctpCrcTableil8O40, sctpCrcTableil8O48, sctpCrcTableil8O56, sctpCrcTableil8O64,
      sctpCrcTableil8O72, sctpCrcTableil8O80, sctpCrcTableil8O88] =
    [sctpCrcTableil8O32, sctpCrcTableil8O40, sctpCrcTableil8O48, sctpCrcTableil8O56,
      sctpCrcTableil8O64, sctpCrcTableil8O72, sctpCrcTableil8O80].map
      (List.map (Crc.zeros crc32cPoly 1)) := by
  decide +kernel

theorem slice_o32 : Slice 1 sctpCrcTableil8O32 := by
  intro i hi
  rw [sctpCrcTableil8O32_eq, List.getElem?_map, List.getElem?_range hi, Option.map_some]

theorem slice_crc32cTable : Slice 1 crc32cTable :=
  crc32cTable_eq ▸ slice_o32

/-- **The tables are slices.** -/
theorem slices :
    Slice 2 sctpCrcTableil8O40 ∧ Slice 3 sctpCrcTableil8O48 ∧
      Slice 4 sctpCrcTableil8O56 ∧ Slice 5 sctpCrcTableil8O64 ∧
      Slice 6 sctpCrcTableil8O72 ∧ Slice 7 sctpCrcTableil8O80 ∧
      Slice 8 sctpCrcTableil8O88 := by
  have hchain := sctpCrcTableil8_chain
  simp only [List.map_cons, List.map_nil, List.cons.injEq, and_true] at hchain
  obtain ⟨h40, h48, h56, h64, h72, h80, h88⟩ := hchain
  have s40 : Slice 2 sctpCrcTableil8O40 := h40 ▸ slice_o32.next
  have s48 : Slice 3 sctpCrcTableil8O48 := h48 ▸ s40.next
  have s56 : Slice 4 sctpCrcTableil8O56 := h56 ▸ s48.next
  have s64 : Slice 5 sctpCrcTableil8O64 := h64 ▸ s56.next
  have s72 : Slice 6 sctpCrcTableil8O72 := h72 ▸ s64.next
  have s80 : Slice 7 sctpCrcTableil8O80 := h80 ▸ s72.next
  exact ⟨s40, s48, s56, s64, s72, s80, h88 ▸ s80.next⟩

/-! ## Look-ups -/

theorem Slice.low {k : Nat} {table : List (BitVec 32)} (h : Slice k table) (x : BitVec 32) :
    table[(x &&& 0xFF#32).toNat]? = some (Crc.zeros crc32cPoly k (x &&& 0xFF#32)) := by
  have hlow : (x &&& 0xFF#32).toNat < 256 := by
    rw [BitVec.toNat_and]
    exact Nat.lt_of_le_of_lt Nat.and_le_right (by decide)
  rw [h _ hlow, BitVec.ofNat_toNat, BitVec.setWidth_eq]

theorem Slice.octet {k : Nat} {table : List (BitVec 32)} (h : Slice k table) (b : BitVec 8) :
    table[b.toNat]? = some (Crc.zeros crc32cPoly k (b.setWidth 32)) := by
  rw [h _ b.isLt, BitVec.ofNat_toNat]

end MiscTools.Crc32
